import Cascade.Value.Json
import Cascade.Yaml.Basic
/-!
Values as YAML nodes and back. Values that are no data, such as types, are written as their text;
keys of a mapping that are no strings become their text when read.
-/
namespace Cascade
namespace Value

def ofYamlInteger (n : Int) : Value :=
  match int64? n with
  | some i => integer i
  | none => float n.toNat.toUInt64.toFloat

mutual
def ofYaml : Yaml → Value
  | .null => undef
  | .bool b => bool b
  | .integer n => ofYamlInteger n
  | .float x => float x
  | .string s => string s
  | .sequence items => array (ofYamlItems items)
  | .mapping entries => hash (Table.ofList (ofYamlEntries entries))
  | .tagged _ v => ofYaml v

def ofYamlItems : List Yaml → List Value
  | [] => []
  | v :: vs => ofYaml v :: ofYamlItems vs

def ofYamlEntries : List (Yaml × Yaml) → List (String × Value)
  | [] => []
  | (k, v) :: es => (keyOfYaml k, ofYaml v) :: ofYamlEntries es

/-- The key that stands for a node. -/
def keyOfYaml : Yaml → String
  | .string s => s
  | .bool b => if b then "true" else "false"
  | .integer n => Yaml.integerText n
  | .float x => yamlFloat.text x
  | .null => "~"
  | .sequence items => (array (ofYamlItems items)).display
  | .mapping entries => (hash (Table.ofList (ofYamlEntries entries))).display
  | .tagged _ v => (ofYaml v).display
end

mutual
def toYaml : Value → Yaml
  | undef => .null
  | bool b => .bool b
  | integer n => .integer n.toInt
  | float x => .float x
  | string s => .string s
  | array items => .sequence (toYamlItems items)
  | hash entries => .mapping (toYamlEntries entries)
  | default => .string "default"
  | type name params => .string (type name params).display
  | regex source => .string (regex source).display
  | resource typeName title => .string (resource typeName title).display

def toYamlItems : List Value → List Yaml
  | [] => []
  | v :: vs => toYaml v :: toYamlItems vs

def toYamlEntries : List (String × Value) → List (Yaml × Yaml)
  | [] => []
  | (k, v) :: es => (.string k, toYaml v) :: toYamlEntries es
end

end Value
end Cascade
