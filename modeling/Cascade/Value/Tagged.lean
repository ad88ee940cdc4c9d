import Cascade.Json.Parser
import Cascade.Value.Basic
/-!
Values as JSON without loss. What JSON has a form for is written as it is, and the rest as an object
with a tag: `{"f": "3ff0000000000000"}` for a float by its bits, `{"h": [[key, value], ...]}` for a
hash in its order.
-/
namespace Cascade

/-- The largest magnitude up to which every reader of JSON keeps integers exact. -/
def Json.exactBound : Nat := 0x1fffffffffffff

def Json.taggedInt (n : Int) : Json :=
  if n.natAbs ≤ exactBound then .ofInt n else .object [("i", .string (toString n))]

def hexDigits (count n : Nat) : List Char :=
  match count with
  | 0 => []
  | count + 1 => hexDigits count (n / 16) ++ [Nat.digitChar (n % 16)]

def Json.taggedFloat (x : Float) : Json :=
  .object [("f", .string (if x.isNaN then "nan" else String.ofList (hexDigits 16 x.toBits.toNat)))]

/-- A document with its numbers in tagged form: floats stay apart from integers. -/
def Json.tagNumbers : Json → Json
  | .number (.integer n) =>
    if n < 0x8000000000000000 then taggedInt n else .object [("u", .string (toString n))]
  | .number (.float x) => taggedFloat x
  | .array items => .array (tagItems items)
  | .object members => .object (tagMembers members)
  | other => other
where
  tagItems : List Json → List Json
    | [] => []
    | v :: vs => v.tagNumbers :: tagItems vs
  tagMembers : List (String × Json) → List (String × Json)
    | [] => []
    | (k, v) :: ms => (k, v.tagNumbers) :: tagMembers ms

namespace Value

mutual
def toTagged : Value → Json
  | undef => .null
  | default => .object [("default", .bool true)]
  | bool b => .bool b
  | integer n => .taggedInt n.toInt
  | float x => .taggedFloat x
  | string s => .string s
  | array items => .array (toTaggedItems items)
  | hash entries => .object [("h", .array (toTaggedEntries entries))]
  | type name params => .object [("params", .array (toTaggedItems params)), ("type", .string name)]
  | regex source => .object [("re", .string source)]
  | resource typeName title => .object [("res", .array [.string typeName, .string title])]

def toTaggedItems : List Value → List Json
  | [] => []
  | v :: vs => toTagged v :: toTaggedItems vs

def toTaggedEntries : List (String × Value) → List Json
  | [] => []
  | (k, v) :: es => .array [.string k, toTagged v] :: toTaggedEntries es
end

def ofHex (digits : String) : Nat :=
  digits.toList.foldl (fun n c => n * 16 + (Json.hexValue? c).getD 0) 0

mutual
/-- Reads a tagged form; what is none is `undef`. A repeated key of a hash keeps its first place and its
last value. -/
def ofTagged : Json → Value
  | .null => undef
  | .bool b => bool b
  | .number (.integer n) => integer (Int64.ofInt n)
  | .number (.float x) => float x
  | .string s => string s
  | .array items => array (ofTaggedItems items)
  | .object [("i", .string n)] => integer (Int64.ofInt (n.toInt?.getD 0))
  | .object [("f", .string "nan")] => float (0.0 / 0.0)
  | .object [("f", .string bits)] => float (Float.ofBits (ofHex bits).toUInt64)
  | .object [("h", .array entries)] => hash (Table.ofList (ofTaggedEntries entries))
  | .object [("params", .array params), ("type", .string name)] => type name (ofTaggedItems params)
  | .object [("type", .string name)] => type name []
  | .object [("re", .string source)] => regex source
  | .object [("res", .array [.string typeName, .string title])] => resource typeName title
  | .object [("default", _)] => default
  | .object _ => undef

def ofTaggedItems : List Json → List Value
  | [] => []
  | j :: js => ofTagged j :: ofTaggedItems js

def ofTaggedEntries : List Json → List (String × Value)
  | [] => []
  | .array [.string k, v] :: es => (k, ofTagged v) :: ofTaggedEntries es
  | _ :: es => ("", undef) :: ofTaggedEntries es
end

end Value
end Cascade
