import Cascade.Error
import Cascade.Value.Admission
import Cascade.Value.Display
import Cascade.Text.Summary
/-!
Resolved classes and titles of defined types: a definition together with what its evaluation has
brought about so far, property by property.
-/
namespace Cascade

inductive Hint
  /-- A parameter that is neither overridden nor has a default. -/
  | missingValue
  | typeMismatch (expected actual : String)
  /-- The value is an encrypted envelope and is shown as it is. -/
  | encrypted
  deriving DecidableEq

/-- Whether a string is the envelope of an encrypted value. -/
def isEnvelope (s : String) : Bool :=
  "ENC[".toList.isPrefixOf s.toList && s.toList.getLast? == some ']'

structure Property where
  type : Option TypeRef
  value : Option Value
  /-- The declared default, also where an override gave the value. -/
  default : Option Value
  error : Option EvalError
  hints : List Hint
  deriving Inhabited

namespace Property

def empty : Property := ⟨none, none, none, none, []⟩

def ofValue (v : Value) : Property := { empty with value := some v }

def ofError (e : EvalError) : Property := { empty with error := some e }

def typeHints (type : Option TypeRef) (v : Value) : List Hint :=
  match type with
  | some t => if t.accepts v then [] else [.typeMismatch t.display v.typeName]
  | none => []

def envelopeHints (v : Value) : List Hint :=
  if v.asString?.any isEnvelope then [.encrypted] else []

/-- Adds the hints that the value calls for. -/
def check (p : Property) : Property :=
  match p.value with
  | none => p
  | some v => { p with hints := p.hints ++ typeHints p.type v ++ envelopeHints v }

end Property

/-- A resource declared in the body of a class. -/
structure DeclaredResource where
  typeName : String
  title : String
  attributes : Table String Value
  deriving Inhabited

/-- The value that overrides a parameter, and the level it came from. -/
structure Seed where
  value : Value
  level : Option Nat
  deriving Inhabited

structure Instance where
  definition : Definition
  /-- The title of a defined type. -/
  title : Option String
  /-- What overrides the parameters of a defined type; a class asks the hierarchy. -/
  seeds : Option (Table String Seed)
  /-- The copy of the definition that this instance evaluates. -/
  copy : Nat
  properties : Table String Property
  overrides : Table String Nat
  resources : List DeclaredResource
  isPublic : Bool

namespace Instance

def create (definition : Definition) (title : Option String) (seeds : Option (Table String Seed))
    (copy : Nat) : Instance :=
  ⟨definition, title, seeds, copy, [], [], [], false⟩

def name (i : Instance) : String := i.definition.name

def parent (i : Instance) : Option String := i.definition.parent

def value? (i : Instance) (property : String) : Option Value :=
  (i.properties.get? property).bind (·.value)

def summary (i : Instance) : String :=
  let title := match i.title with
    | some t => "Some(" ++ Text.quoted t ++ ")"
    | none => "None"
  Text.summary "ClassInstance" [("name", Text.quoted i.name), ("title", title),
    ("properties", Decimal.digitText i.properties.length)]

end Instance
end Cascade
