import Cascade.Decimal.Layout
import Cascade.Table
import Cascade.Text.Quoted
/-!
YAML nodes. A mapping keeps the order of its keys, which may be any nodes; a key of a data file is
nearly always a string, and `get?` finds those.
-/
namespace Cascade

inductive Yaml
  | null
  | bool (b : Bool)
  | integer (n : Int)
  | float (x : Float)
  | string (s : String)
  | sequence (items : List Yaml)
  | mapping (entries : List (Yaml × Yaml))
  /-- A value under a tag of the document's own; the tag stands without its `!`. -/
  | tagged (tag : String) (value : Yaml)
  deriving Inhabited

/-- Floats never lose their point or exponent, and exponents have no plus sign. -/
def yamlFloat : Decimal.FloatStyle :=
  { nan := ".nan", infinity := ".inf", negativeInfinity := "-.inf"
    exponentMark := some "e", exactWhole := false }

namespace Yaml

mutual
/-- Agreement of keys; the order of entries does not matter, and a NaN agrees with itself. -/
def same : Yaml → Yaml → Bool
  | null, null => true
  | bool a, bool b => a == b
  | integer a, integer b => a == b
  | float a, float b => a == b || a.isNaN && b.isNaN
  | string a, string b => a == b
  | sequence a, sequence b => sameItems a b
  | mapping a, mapping b => a.length == b.length && sameEntries a b
  | tagged s a, tagged t b => s == t && same a b
  | _, _ => false

def sameItems : List Yaml → List Yaml → Bool
  | [], [] => true
  | a :: as, b :: bs => same a b && sameItems as bs
  | _, _ => false

def sameEntries : List (Yaml × Yaml) → List (Yaml × Yaml) → Bool
  | [], _ => true
  | (k, v) :: es, t => t.any (fun e => same k e.1 && same v e.2) && sameEntries es t
end

def untagged : Yaml → Yaml
  | tagged _ v => v.untagged
  | v => v

def isString (s : String) : Yaml → Bool
  | string t => t == s
  | _ => false

def asString? (v : Yaml) : Option String :=
  match v.untagged with
  | string s => some s
  | _ => none

/-- The value of a string key. -/
def get? (key : String) (v : Yaml) : Option Yaml :=
  match v with
  | mapping entries => (entries.find? fun e => isString key e.1).map (·.2)
  | _ => none

def path? : List String → Yaml → Option Yaml
  | [], v => some v
  | key :: rest, v => (v.get? key).bind (path? rest)

/-- What a message calls a node. -/
def describe : Yaml → String
  | null => "null"
  | bool _ => "a boolean"
  | integer _ | float _ => "a number"
  | string _ => "a string"
  | sequence _ => "a sequence"
  | mapping _ => "a mapping"
  | tagged .. => "a tagged value"

def integerText (n : Int) : String :=
  (if n < 0 then "-" else "") ++ Decimal.digitText n.natAbs

mutual
/-- A node shown with its kind, for messages about nodes in the wrong place. -/
def inspect : Yaml → String
  | null => "Null"
  | bool b => "Bool(" ++ (if b then "true" else "false") ++ ")"
  | integer n => "Number(" ++ integerText n ++ ")"
  | float x => "Number(" ++ yamlFloat.text x ++ ")"
  | string s => "String(" ++ Text.quoted s ++ ")"
  | sequence items => "Sequence [" ++ ", ".intercalate (inspectItems items) ++ "]"
  | mapping entries => "Mapping \x7b" ++ ", ".intercalate (inspectEntries entries) ++ "\x7d"
  | tagged tag v => "TaggedValue \x7b tag: !" ++ tag ++ ", value: " ++ inspect v ++ " \x7d"

def inspectItems : List Yaml → List String
  | [] => []
  | v :: vs => inspect v :: inspectItems vs

def inspectEntries : List (Yaml × Yaml) → List String
  | [] => []
  | (k, v) :: es => (inspectKey k ++ ": " ++ inspect v) :: inspectEntries es

def inspectKey : Yaml → String
  | bool b => if b then "true" else "false"
  | integer n => integerText n
  | float x => yamlFloat.text x
  | string s => Text.quoted s
  | k => inspect k
end

end Yaml
end Cascade
