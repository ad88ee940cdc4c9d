import Cascade.Eval.Machine
/-!
What an evaluation can ask of the world around it: other classes, functions and global variables. A
`Scope` says where its variables live and what becomes of a failed assignment: inside an instance it is
recorded with the property, in a function call it ends the call.
-/
namespace Cascade

/-- Where a global variable is defined. -/
inductive GlobalLookup
  | missing
  /-- By something else than a hierarchy level, a fact for instance. -/
  | unknownLevel
  | level (n : Nat)
  deriving DecidableEq

namespace GlobalLookup

def «exists» : GlobalLookup → Bool
  | missing => false
  | _ => true

def level? : GlobalLookup → Option Nat
  | level n => some n
  | _ => none

end GlobalLookup

/-- What a hierarchy level has contributed. -/
inductive SourceKind
  | hostClass
  | property
  deriving DecidableEq

def SourceKind.display : SourceKind → String
  | hostClass => "class"
  | property => "property"

structure Resolver (η : Type) where
  resolveClass : String → Act η Nat
  resolveFunction : String → Act η (Option Definition)
  invoke : Definition → List Value → Act η Value
  global? : η → String → Option Value
  lookupGlobal : η → String → GlobalLookup
  registerSource : SourceKind → String → Nat → η → η

inductive Scope
  /-- The call of a function. -/
  | frame
  | object (i : Nat)
  deriving DecidableEq

structure Env (η : Type) where
  resolver : Resolver η
  scope : Scope
  copy : Nat

namespace Scope

variable {η : Type}

def instance? (s : Scope) (m : Machine η) : Option Instance :=
  match s with
  | frame => none
  | object i => m.instance? i

/-- A variable of an instance is a property with a value. A defined type also has its title. -/
def ofInstance? (i : Instance) (name : String) : Option Value :=
  match i.value? name with
  | some v => some v
  | none => if name = "title" ∨ name = "name" then i.title.map Value.string else none

def lookup (s : Scope) (m : Machine η) (name : String) : Option Value :=
  match s with
  | frame => m.frame.get? name
  | object i => (m.instance? i).bind fun inst => ofInstance? inst name

def owner (s : Scope) (m : Machine η) : Option String := (s.instance? m).map (·.name)

def parentClass (s : Scope) (m : Machine η) : Option String := (s.instance? m).bind (·.parent)

def setProperty (i : Nat) (name : String) (p : Property) : Eval η Unit :=
  modify fun m => m.updateInstance i fun inst =>
    { inst with properties := inst.properties.set name p }

/-- Gives a variable the outcome of its right-hand side. -/
def assign (s : Scope) (name : String) (outcome : Outcome) : Eval η Value := do
  match s, outcome with
  | frame, .ok v =>
    modify fun m => { m with frame := m.frame.set name v }
    return v
  | object i, .ok v =>
    setProperty i name (Property.ofValue v).check
    return v
  | object i, .error (.fault (.error e)) =>
    setProperty i name (Property.ofError e)
    return .undef
  | _, .error interrupt => throw interrupt

/-- Outside the body of a class a declared resource is ignored. -/
def declareResource (s : Scope) (r : DeclaredResource) : Eval η Unit :=
  match s with
  | frame => pure ()
  | object i => modify fun m => m.updateInstance i fun inst =>
      { inst with resources := inst.resources ++ [r] }

end Scope

namespace Env

variable {η : Type}

/-- The value of a property of the class with a name. -/
def classValue? (env : Env η) (name property : String) : Act η (Option Value) := do
  let i ← env.resolver.resolveClass name
  return ((← get).instance? i).bind fun inst => inst.value? property

/-- `::v` is global, `a::v` a property of the class `a`, and `v` belongs to the scope, the class it
inherits from, or everyone. What is not found is `undef`. -/
def lookupVariable (env : Env η) (name : String) : Act η Value := do
  let bare := Name.bare name
  match Name.qualifier? bare with
  | some (owner, property) =>
    if (env.scope.owner (← get)).any fun o => Name.sameFold o owner then
      return (env.scope.lookup (← get) property).getD .undef
    else return (← env.classValue? owner property).getD .undef
  | none =>
    let inherited : Option Value ←
      if Name.isGlobal name then pure none
      else match env.scope.lookup (← get) bare with
        | some v => pure (some v)
        | none => match env.scope.parentClass (← get) with
          | some parent => env.classValue? parent bare
          | none => pure none
    match inherited with
    | some v => return v
    | none => return (env.resolver.global? (← get).host bare).getD .undef

end Env
end Cascade
