import Cascade.Decimal.Read
/-!
Reading counts: whole numbers without a sign other than `+`, below `2^64`.
-/
namespace Cascade.Decimal

def readCount? (s : List Char) : Option Nat :=
  let digits := match s with
    | '+' :: r => r
    | r => r
  if digits.isEmpty || !digits.all Char.isDigit then none
  else
    let n := digitsValue digits
    if n < UInt64.size then some n else none

end Cascade.Decimal
