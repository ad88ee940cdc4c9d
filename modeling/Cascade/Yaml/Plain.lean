import Cascade.Decimal.Read
import Cascade.Text.Split
import Cascade.Yaml.Basic
import Cascade.Yaml.Error
/-!
What plain scalars mean. A plain scalar is null, a boolean, an integer or a float if its text has the
form of one, and a string otherwise. Numbers with leading zeros are strings.
-/
namespace Cascade.Yaml

def isNullText (s : String) : Bool := ["null", "Null", "NULL", "~"].contains s

def boolOfText? (s : String) : Option Bool :=
  if ["true", "True", "TRUE"].contains s then some true
  else if ["false", "False", "FALSE"].contains s then some false
  else none

def digit? (radix : Nat) (c : Char) : Option Nat :=
  let n :=
    if '0' ≤ c ∧ c ≤ '9' then c.toNat - '0'.toNat
    else if 'a' ≤ c ∧ c ≤ 'f' then c.toNat - 'a'.toNat + 10
    else if 'A' ≤ c ∧ c ≤ 'F' then c.toNat - 'A'.toNat + 10
    else radix
  if n < radix then some n else none

/-- The value of a run of digits that is not empty. -/
def digits? (radix : Nat) : List Char → Option Nat
  | [] => none
  | s => s.foldlM (fun n c => (digit? radix c).map (n * radix + ·)) 0

/-- Digits under `0x`, `0o` or `0b`. -/
def radixNumber? : List Char → Option Nat
  | '0' :: 'x' :: s => digits? 16 s
  | '0' :: 'o' :: s => digits? 8 s
  | '0' :: 'b' :: s => digits? 2 s
  | _ => none

def dropSign : List Char → List Char
  | '-' :: s | '+' :: s => s
  | s => s

/-- Digits after a zero, which make a string and no number. -/
def hasLeadingZero (s : List Char) : Bool :=
  match dropSign s with
  | '0' :: d :: rest => (d :: rest).all Char.isDigit
  | _ => false

def magnitude? (s : List Char) : Option Nat := radixNumber? s <|> digits? 10 s

def integer? (s : List Char) : Option Int :=
  if hasLeadingZero s then none
  else match s with
    | '-' :: r => (magnitude? r).map fun n => -(n : Int)
    | '+' :: r => (magnitude? r).map fun n => (n : Int)
    | r => (magnitude? r).map fun n => (n : Int)

def float? (s : String) : Option Float :=
  let cs := s.toList
  let body := match cs with
    | '+' :: r => r
    | r => r
  if cs.head? = some '+' ∧ dropSign body ≠ body then none
  else if [".inf", ".Inf", ".INF"].contains (String.ofList body) then some Decimal.infinity
  else if ["-.inf", "-.Inf", "-.INF"].contains s then some (-Decimal.infinity)
  else if [".nan", ".NaN", ".NAN"].contains s then some (0.0 / 0.0)
  else match Decimal.readNumeral body with
    | some n => if n.nearest.isFinite then some n.nearest else none
    | none => none

/-- Whether 64 bits hold an integer, signed or unsigned. -/
def fitsWord (n : Int) : Bool := -0x8000000000000000 ≤ n && n < 0x10000000000000000

/-- Whether an integer has to fit: larger ones are read as floats. -/
def isBounded (n : Int) : Bool :=
  -0x80000000000000000000000000000000 ≤ n && n < 0x100000000000000000000000000000000

/-- The integer that a text is, as far as integers go. -/
def boundedInteger? (s : String) : Option Int := (integer? s.toList).filter isBounded

def ofInteger (n : Int) : Except YamlError Yaml :=
  if fitsWord n then .ok (integer n) else .error .integerTooLarge

def ofPlain (s : String) : Except YamlError Yaml :=
  if s.isEmpty || isNullText s then .ok null
  else match boolOfText? s with
    | some b => .ok (bool b)
    | none => match boundedInteger? s with
      | some n => ofInteger n
      | none =>
        if hasLeadingZero s.toList then .ok (string s)
        else match float? s with
          | some x => .ok (float x)
          | none => .ok (string s)

/-- Whether a text can stand plain and still be read as a string. -/
def readsAsString (s : String) : Bool :=
  match ofPlain s with
  | .ok (string _) => !hasLeadingZero s.toList
  | .ok _ => false
  | .error _ => false

def coreTag (name : String) : String := "tag:yaml.org,2002:" ++ name

/-- A scalar under a tag of the core types, which is honoured in any style. -/
def ofCore? (tag s : String) : Option (Except YamlError Yaml) :=
  if tag = coreTag "bool" then
    some ((boolOfText? s).elim (.error (.wrongTag "a boolean")) fun b => .ok (bool b))
  else if tag = coreTag "int" then
    some ((boundedInteger? s).elim (.error (.wrongTag "an integer")) ofInteger)
  else if tag = coreTag "float" then
    some ((float? s).elim (.error (.wrongTag "a float")) fun x => .ok (float x))
  else if tag = coreTag "null" then
    some (if isNullText s then .ok null else .error (.wrongTag "null"))
  else none

end Cascade.Yaml
