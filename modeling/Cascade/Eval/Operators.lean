import Cascade.Error
import Cascade.Value.Display
/-!
Operators on values. Integer arithmetic is exact or refused: `checked` gives the mathematical result
when it fits 64 bits and an overflow otherwise.
-/
namespace Cascade

abbrev Result := Except EvalError Value

namespace Value

def fits (n : Int) : Bool := -0x8000000000000000 ≤ n && n < 0x8000000000000000

def checked (op : String) (n : Int) : Result :=
  if fits n then .ok (integer (Int64.ofInt n)) else .error (.overflow op)

def mismatch {α : Type} (op : BinaryOp) (left right : Value) : Except EvalError α :=
  .error (.operandMismatch op left.typeName right.typeName)

/-- Division and remainder go toward zero. -/
def integerArithmetic (op : BinaryOp) (a b : Int64) : Result :=
  match op with
  | .add => checked "+" (a.toInt + b.toInt)
  | .sub => checked "-" (a.toInt - b.toInt)
  | .mul => checked "*" (a.toInt * b.toInt)
  | .div => if b = 0 then .error .divisionByZero else checked "/" (a.toInt.tdiv b.toInt)
  | .mod =>
    if b = 0 then .error .divisionByZero
    else if fits (a.toInt.tdiv b.toInt) then checked "%" (a.toInt.tmod b.toInt)
    else .error (.overflow "%")
  | _ => mismatch op (integer a) (integer b)

def floatArithmetic (op : BinaryOp) (a b : Float) : Result :=
  match op with
  | .add => .ok (float (a + b))
  | .sub => .ok (float (a - b))
  | .mul => .ok (float (a * b))
  | .div => if b == 0.0 then .error .divisionByZero else .ok (float (a / b))
  | _ => mismatch op (float a) (float b)

def anyEqual (items : List Value) (v : Value) : Bool := items.any fun item => item.equal v

/-- Keeps the elements of `items` that equal nothing in `others`. -/
def without (items others : List Value) : List Value :=
  items.filter fun item => !others.any fun other => item.equal other

def arithmetic (op : BinaryOp) (left right : Value) : Result :=
  match left, right with
  | integer a, integer b => integerArithmetic op a b
  | float a, float b => floatArithmetic op a b
  | integer a, float b => floatArithmetic op a.toFloat b
  | float a, integer b => floatArithmetic op a b.toFloat
  | array a, array b =>
    match op with
    | .add => .ok (array (a ++ b))
    | .sub => .ok (array (without a b))
    | _ => mismatch op left right
  | hash a, hash b =>
    match op with
    | .add => .ok (hash (Table.merge a b))
    | .sub => .ok (hash (a.filter fun e => !Table.contains b e.1))
    | _ => mismatch op left right
  | hash a, array keys =>
    match op with
    | .sub => .ok (hash (a.filter fun e => !keys.any (·.asString? == some e.1)))
    | _ => mismatch op left right
  | array a, v =>
    match op with
    | .add => .ok (array (a ++ [v]))
    | _ => mismatch op left right
  | _, _ => mismatch op left right

def compareFloats (a b : Float) : Option Ordering :=
  if a < b then some .lt else if a == b then some .eq else if a > b then some .gt else none

/-- Strings are ordered by their lower-case forms. -/
def compare? : Value → Value → Option Ordering
  | integer a, integer b => some (compareOfLessAndEq a b)
  | float a, float b => compareFloats a b
  | integer a, float b => compareFloats a.toFloat b
  | float a, integer b => compareFloats a b.toFloat
  | string a, string b => some (compareOfLessAndEq (Text.lowercase a) (Text.lowercase b))
  | _, _ => none

def ordered (op : BinaryOp) (holds : Ordering → Bool) (left right : Value) : Result :=
  match compare? left right with
  | some o => .ok (bool (holds o))
  | none => mismatch op left right

/-- `needle in haystack` -/
def contains (haystack needle : Value) : Except EvalError Bool :=
  match haystack with
  | string h =>
    match needle with
    | string n => .ok (Text.occursIn n.toList h.toList)
    | _ => .ok false
  | array items => .ok (anyEqual items needle)
  | hash entries => .ok (entries.any fun e => (string e.1).equal needle)
  | other => .error (.invalidOperand BinaryOp.in.symbol other.typeName)

def binary (op : BinaryOp) (left right : Value) : Result :=
  match op with
  | .eq => .ok (bool (left.equal right))
  | .notEq => .ok (bool !(left.equal right))
  | .lt => ordered op Ordering.isLT left right
  | .ltEq => ordered op Ordering.isLE left right
  | .gt => ordered op Ordering.isGT left right
  | .gtEq => ordered op Ordering.isGE left right
  | .and => .ok (bool (left.isTruthy && right.isTruthy))
  | .or => .ok (bool (left.isTruthy || right.isTruthy))
  | .in => (contains right left).map bool
  | .add | .sub | .mul | .div | .mod => arithmetic op left right

def unary (op : UnaryOp) (v : Value) : Result :=
  match op, v with
  | .not, v => .ok (bool !v.isTruthy)
  | .neg, integer n => checked "-" (-n.toInt)
  | .neg, float x => .ok (float (-x))
  | .neg, other => .error (.invalidOperand op.symbol other.typeName)

end Value
end Cascade
