import Cascade.Json.Basic
import Cascade.Node.Resolve
import Cascade.Value.Json
/-!
Resolved instances in a form for display, and that form as JSON. What has no value is left out, but
for the value of a property, which is then `null`. Showing an instance makes it public.
-/
namespace Cascade

structure PropertyDump where
  name : String
  type : Option String
  value : Option Json
  /-- The declared default, whether or not it gave the value. -/
  default : Option Json
  error : Option String
  hints : List Hint
  /-- The level of the override that gave the value. -/
  overriddenAt : Option Nat

structure InstanceDump where
  name : String
  title : Option String
  kind : String
  parent : Option String
  isPublic : Bool
  /-- The level that lists the class. -/
  includedAt : Option Nat
  properties : List PropertyDump
  resources : List DeclaredResource

namespace PropertyDump

def ofProperty (name : String) (p : Property) (overriddenAt : Option Nat) : PropertyDump :=
  { name, type := p.type.map TypeRef.display, value := p.value.map Value.toJson,
    default := p.default.map Value.toJson, error := p.error.map EvalError.message,
    hints := p.hints, overriddenAt }

def hintJson : Hint → Json
  | .missingValue => .object [("hint", .string "missing_value")]
  | .typeMismatch expected actual =>
    .object [("hint", .string "type_mismatch"), ("expected", .string expected),
      ("actual", .string actual)]
  | .encrypted => .object [("hint", .string "encrypted")]

/-- A member that is left out when it has no value. -/
def member (key : String) (v : Option Json) : List (String × Json) := v.toList.map fun j => (key, j)

def toJson (p : PropertyDump) : Json :=
  .object (("name", .string p.name) :: member "type" (p.type.map .string) ++
    [("value", p.value.getD .null)] ++ member "default" p.default ++
    member "error" (p.error.map .string) ++
    member "hints" (if p.hints.isEmpty then none else some (.array (p.hints.map hintJson))) ++
    member "overridden_at" (p.overriddenAt.map .ofNat))

end PropertyDump

namespace InstanceDump

open PropertyDump (member)

def ofInstance (i : Instance) (includedAt : Option Nat) : InstanceDump :=
  { name := i.name, title := i.title, kind := i.definition.kind.display, parent := i.parent,
    isPublic := i.isPublic, includedAt,
    properties := i.properties.map fun e =>
      PropertyDump.ofProperty e.1 e.2 (i.overrides.get? e.1)
    resources := i.resources }

def property? (d : InstanceDump) (name : String) : Option PropertyDump :=
  d.properties.find? fun p => p.name = name

def resourceJson (r : DeclaredResource) : Json :=
  .object [("type", .string r.typeName), ("title", .string r.title),
    ("attributes", .object (Table.mapValues Value.toJson r.attributes))]

def toJson (d : InstanceDump) : Json :=
  .object (("name", .string d.name) :: member "title" (d.title.map .string) ++
    [("kind", .string d.kind)] ++ member "parent" (d.parent.map .string) ++
    [("public", .bool d.isPublic)] ++ member "included_at" (d.includedAt.map .ofNat) ++
    [("properties", .array (d.properties.map PropertyDump.toJson)),
      ("resources", .array (d.resources.map resourceJson))])

end InstanceDump

namespace Node

def markPublic (i : Nat) : Act Host Unit :=
  modify fun m => m.updateInstance i fun inst => { inst with isPublic := true }

/-- The instance with a number; every number that resolution gives has one. -/
def instanceAt (i : Nat) : Act Host Instance := do
  match (← get).instance? i with
  | some inst => return inst
  | none => throw .exhausted

/-- Resolves a class for display. -/
def dumpClass (r : Resolver Host) (name : String) : Act Host InstanceDump := do
  let i ← r.resolveClass name
  markPublic i
  let inst ← instanceAt i
  return InstanceDump.ofInstance inst ((← get).host.node.source? .hostClass inst.name)

/-- Resolves a title of a defined type for display. -/
def dumpResource (r : Resolver Host) (typeName title : String) : Act Host InstanceDump := do
  let i ← resolveResource r typeName title
  markPublic i
  return InstanceDump.ofInstance (← instanceAt i) none

end Node
end Cascade
