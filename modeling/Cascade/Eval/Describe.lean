import Cascade.Eval.Instance
import Cascade.Value.Tagged
/-!
Instances and errors as JSON, for tools that look at them. A value that may be missing is a list of at
most one value or `null`, so that it differs from `undef`.
-/
namespace Cascade

/-- An error of the compilation of a definition also names the kind of its first cause. -/
def EvalError.describe (e : EvalError) : Json :=
  .ofMembers ([("error", .string e.kind), ("message", .string e.message)] ++
    match e with
    | .compilation .. => [("root", .string e.rootCause.kind)]
    | _ => [])

def Hint.describe : Hint → Json
  | missingValue => .string "MissingValue"
  | encrypted => .string "Encrypted"
  | typeMismatch expected actual =>
    .ofMembers [("expected", .string expected), ("actual", .string actual)]

def Value.describeOption (v : Option Value) : Json := v.elim .null fun v => .array [v.toTagged]

def Value.describeEntries (t : Table String Value) : Json :=
  .array (t.map fun e => .array [.string e.1, e.2.toTagged])

def Property.describe (p : Property) : Json :=
  .ofMembers [("type", p.type.elim .null fun t => .string t.display),
    ("value", Value.describeOption p.value), ("default", Value.describeOption p.default),
    ("error", p.error.elim .null EvalError.describe), ("hints", .array (p.hints.map Hint.describe))]

def DeclaredResource.describe (r : DeclaredResource) : Json :=
  .ofMembers [("type", .string r.typeName), ("title", .string r.title),
    ("attributes", Value.describeEntries r.attributes)]

def Instance.describe (i : Instance) : Json :=
  .ofMembers [("name", .string i.name), ("title", i.title.elim .null .string),
    ("kind", .string i.definition.kind.display), ("parent", i.parent.elim .null .string),
    ("public", .bool i.isPublic),
    ("properties", .array (i.properties.map fun e => .array [.string e.1, e.2.describe])),
    ("overrides", .array (i.overrides.map fun e => .array [.string e.1, .ofNat e.2])),
    ("resources", .array (i.resources.map DeclaredResource.describe))]

end Cascade
