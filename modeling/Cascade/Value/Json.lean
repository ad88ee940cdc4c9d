import Cascade.Value.Display
import Cascade.Json.Basic
/-!
Values as JSON. Types, regular expressions and resources have no JSON form and become their text.
-/
namespace Cascade
namespace Value

def int64? (n : Int) : Option Int64 :=
  if -0x8000000000000000 ≤ n ∧ n < 0x8000000000000000 then some (Int64.ofInt n) else none

def ofJsonNumber : JsonNumber → Value
  | .integer n =>
    match int64? n with
    | some i => integer i
    | none => float n.toNat.toUInt64.toFloat
  | .float x => float x

mutual
def ofJson : Json → Value
  | .null => undef
  | .bool b => bool b
  | .number n => ofJsonNumber n
  | .string s => string s
  | .array items => array (ofJsonItems items)
  | .object members => hash (ofJsonMembers members)

def ofJsonItems : List Json → List Value
  | [] => []
  | j :: js => ofJson j :: ofJsonItems js

def ofJsonMembers : List (String × Json) → List (String × Value)
  | [] => []
  | (k, j) :: ms => (k, ofJson j) :: ofJsonMembers ms
end

mutual
def toJson : Value → Json
  | undef => .null
  | default => .string "default"
  | bool b => .bool b
  | integer n => .ofInt n.toInt
  | float x => if x.isFinite then .number (.float x) else .null
  | string s => .string s
  | array items => .array (toJsonItems items)
  | hash entries => .ofMembers (toJsonMembers entries)
  | type name params => .string (type name params).display
  | regex source => .string (regex source).display
  | resource typeName title => .string (resource typeName title).display

def toJsonItems : List Value → List Json
  | [] => []
  | v :: vs => toJson v :: toJsonItems vs

def toJsonMembers : List (String × Value) → List (String × Json)
  | [] => []
  | (k, v) :: es => (k, toJson v) :: toJsonMembers es
end

end Value
end Cascade
