/-!
Reading decimal numerals. `Numeral.nearest` rounds once; `scaledByTable` is the cheaper way of
formats that multiply or divide by a power of ten and accept the second rounding.
-/
namespace Cascade.Decimal

/-- The number `coefficient · 10^exponent`, with a sign. -/
structure Numeral where
  negative : Bool
  coefficient : Nat
  exponent : Int

def digitValue (c : Char) : Nat := c.toNat - '0'.toNat

def digitsValue (cs : List Char) : Nat := cs.foldl (fun n c => n * 10 + digitValue c) 0

def signed (negative : Bool) (x : Float) : Float := if negative then -x else x

def infinity : Float := 1.0 / 0.0

/-- The floating-point number nearest to the numeral. -/
def Numeral.nearest (n : Numeral) : Float :=
  if n.coefficient = 0 then signed n.negative 0.0
  else
    let place := ((Nat.toDigits 10 n.coefficient).length : Int) + n.exponent
    signed n.negative <|
      if 310 < place then infinity
      else if place < -330 then 0.0
      else Float.ofScientific n.coefficient (n.exponent < 0) n.exponent.natAbs

/-- An optional sign and what follows it. -/
def readSign : List Char → Bool × List Char
  | '-' :: s => (true, s)
  | '+' :: s => (false, s)
  | s => (false, s)

def readExponent : List Char → Option Int
  | s =>
    let (negative, digits) := readSign s
    if digits.isEmpty || !digits.all Char.isDigit then none
    else some (if negative then -(digitsValue digits : Int) else digitsValue digits)

/-- Digits with at most one point among them, and an exponent after `e` or `E`. -/
def readNumeral (s : List Char) : Option Numeral :=
  let (negative, body) := readSign s
  let whole := body.takeWhile Char.isDigit
  let rest := body.dropWhile Char.isDigit
  let (fraction, rest) := match rest with
    | '.' :: r => (r.takeWhile Char.isDigit, r.dropWhile Char.isDigit)
    | r => ([], r)
  if whole.isEmpty && fraction.isEmpty then none
  else
    let scale : Int := -(fraction.length : Int)
    let coefficient := digitsValue (whole ++ fraction)
    match rest with
    | [] => some ⟨negative, coefficient, scale⟩
    | e :: r =>
      if e = 'e' ∨ e = 'E' then (readExponent r).map fun x => ⟨negative, coefficient, scale + x⟩
      else none

/-- Powers of ten beyond `10^308` are taken in two steps; `none` when the result is too large. -/
def scaledByTable (significand : Nat) (exponent : Int) : Option Float :=
  let f := significand.toUInt64.toFloat
  let pow (n : Nat) : Float := Float.ofScientific 1 false n
  if 0 ≤ exponent then
    if 308 < exponent then if f == 0.0 then some f else none
    else
      let r := f * pow exponent.toNat
      if r.isInf then none else some r
  else if -308 ≤ exponent then some (f / pow exponent.natAbs)
  else
    let small := f / pow 308
    if small == 0.0 then some small
    else if -616 ≤ exponent then some (small / pow (exponent + 308).natAbs)
    else some 0.0

end Cascade.Decimal
