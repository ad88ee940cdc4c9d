import Cascade.Eval.Resolver
import Cascade.Hierarchy.Compiled
import Cascade.Node.World
import Cascade.SingleFlight.Basic
import Cascade.Text.Order
import Cascade.Text.Summary
/-!
A node: its facts, the hierarchy bound to them, and what has been resolved for it so far. Keys of the
hierarchy have three uses:

    ntp::servers: [a, b]          # a parameter of the class ntp
    classes: [ntp, base]          # the classes of the node
    resources:                    # parameters of titles of defined types
      web::vhost:
        shop: {port: 8080}
-/
namespace Cascade

/-- What a node keeps of one kind of thing. Requests come one at a time, so there is one thread. -/
abbrev Cache (κ ν : Type) := SingleFlight Unit κ ν EvalError

/-- A function with a number that tells one load of it from another. -/
structure LoadedFunction where
  serial : Nat
  definition : Definition

structure Node where
  identity : Identity
  facts : Facts
  hierarchy : Hierarchy
  compiled : Compiled
  loader : Loader
  /-- The key of the list of classes. -/
  classListKey : String
  /-- Numbers of instances, by class. -/
  classes : Cache String Nat
  /-- Numbers of instances, by defined type and title. -/
  resources : Cache (String × String) Nat
  functions : Cache String LoadedFunction
  /-- The levels that classes and overrides are known to come from. -/
  sources : Table (SourceKind × String) Nat

/-- What an evaluation for a node works on besides its machine. -/
structure Host where
  node : Node
  world : World

namespace Node

def standardClassListKey : String := "classes"

def create (files : Files) (certname : String) (facts : Facts) (hierarchy : Hierarchy)
    (loader : Loader) : Except HierarchyError Node := do
  let identity := Identity.ofCertname certname
  let compiled ← Compiled.compile files hierarchy facts identity.facts
  return { identity, facts, hierarchy, compiled, loader, classListKey := standardClassListKey,
           classes := .empty, resources := .empty, functions := .empty, sources := [] }

/-- The facts with what the headers of data files set. -/
def effectiveFacts (n : Node) : Facts := n.compiled.facts

/-- A global that is not defined by a level: `facts`, `trusted`, a fact, or a part of the identity. -/
def factLike? (n : Node) (name : String) : Option Value :=
  if name = "facts" then some (.hash n.effectiveFacts)
  else if name = "trusted" then some (.hash n.identity.facts)
  else Table.get? n.effectiveFacts name <|> n.identity.get? name

/-- The value of a global variable: a fact, or else the value of the first level that has it. -/
def global? (n : Node) (name : String) : Option Value :=
  let name := Name.bare name
  n.factLike? name <|> (n.compiled.lookup name).map (·.1)

def lookupGlobal (n : Node) (name : String) : GlobalLookup :=
  let name := Name.bare name
  if (n.factLike? name).isSome then .unknownLevel
  else match n.compiled.lookup name with
    | some (_, level) => .level level
    | none => .missing

/-- A global variable with the level that defines it, if it is a level that does. -/
def globalAt? (n : Node) (name : String) : Option (Value × Option Nat) :=
  (n.global? name).map fun v => (v, (n.lookupGlobal name).level?)

/-- The level that a class or an override is known to come from. -/
def source? (n : Node) (kind : SourceKind) (name : String) : Option Nat :=
  n.sources.get? (kind, Name.normalize name)

def registerSource (kind : SourceKind) (name : String) (level : Nat) (n : Node) : Node :=
  { n with sources := n.sources.set (kind, Name.normalize name) level }

def forgetSource (kind : SourceKind) (name : String) (n : Node) : Node :=
  { n with sources := n.sources.erase (kind, name) }

/-- The classes that have been resolved. -/
def resolvedClasses (n : Node) : List String := Text.sorted n.classes.keys

def invalidateResource (n : Node) (typeName title : String) : Node :=
  { n with resources := n.resources.invalidate (Name.normalize typeName, title) }

def invalidateFunction (n : Node) (name : String) : Node :=
  { n with functions := n.functions.invalidate (Name.normalize name) }

/-- Binds the hierarchy anew and forgets everything that was resolved. -/
def invalidateAll (n : Node) (files : Files) : Except HierarchyError Node := do
  let compiled ← Compiled.compile files n.hierarchy n.facts n.identity.facts
  return { n with compiled, classes := n.classes.clear, resources := n.resources.clear,
                  functions := n.functions.clear, sources := [] }

/-- Replaces the facts. They stay with the node even if its hierarchy cannot be bound to them. -/
def setFacts (n : Node) (files : Files) (facts : Facts) : Except HierarchyError Unit × Node :=
  let n := { n with facts }
  match n.invalidateAll files with
  | .ok n => (.ok (), n)
  | .error e => (.error e, n)

/-- Replaces the hierarchy. It stays with the node even if it cannot be bound to the facts. -/
def setHierarchy (n : Node) (files : Files) (hierarchy : Hierarchy) :
    Except HierarchyError Unit × Node :=
  let n := { n with hierarchy }
  match n.invalidateAll files with
  | .ok n => (.ok (), n)
  | .error e => (.error e, n)

def summary (n : Node) : String :=
  Text.summary "NodeContext" [("certname", Text.quoted n.identity.certname),
    ("classes", Decimal.digitText n.classes.keys.length),
    ("resources", Decimal.digitText n.resources.keys.length)]

end Node
end Cascade
