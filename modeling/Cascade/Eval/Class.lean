import Cascade.Eval.Expr
/-!
The resolution of an instance: first the class it inherits, then its parameters in order, then its
statements. The failure of one property is recorded with it; only the parent class, or a statement
that fails outside an assignment, fails the instance.
-/
namespace Cascade

variable {η : Type}

/-- The declared type of a parameter. -/
def declaredType (env : Env η) (p : Param) : Act η Property := do
  match p.type with
  | none => return .empty
  | some e => fun m =>
    match (eval env e).run m with
    | (.ok (.type name params), m) => (.ok { Property.empty with type := some ⟨name, params⟩ }, m)
    | (.ok _, m) | (.error (.returned _), m) => (.ok .empty, m)
    | (.error (.fault (.error e)), m) => (.ok (.ofError e), m)
    | (.error (.fault .exhausted), m) => (.error .exhausted, m)

/-- The default of a parameter, or why it has no value. -/
def declaredDefault (env : Env η) (p : Param) : Act η (Option Result) := do
  match p.default with
  | none => return none
  | some e =>
    match ← Act.attempt (Eval.settle (eval env e)) with
    | .ok v => return some (.ok v)
    | .error (.error e) => return some (.error e)
    | .error .exhausted => throw .exhausted

/-- The value that overrides a parameter: for a title of a defined type among its seeds, for a class
under the key `class::parameter`. -/
def override? (r : Resolver η) (i : Instance) (param : String) : Act η (Option Seed) := do
  match i.seeds with
  | some seeds => return seeds.get? param
  | none =>
    let key := i.name ++ "::" ++ param
    let host := (← get).host
    match r.lookupGlobal host key, r.global? host key with
    | .missing, _ | _, none => return none
    | found, some value =>
      match found.level? with
      | some level => modify fun m => { m with host := r.registerSource .property key level m.host }
      | none => pure ()
      return some ⟨value, found.level?⟩

/-- The property of a parameter. A failing default only matters when nothing overrides it. -/
def resolveParam (env : Env η) (number : Nat) (i : Instance) (p : Param) : Act η Property := do
  let typed ← declaredType env p
  let default ← declaredDefault env p
  let property := { typed with default := default.bind (·.toOption) }
  match ← override? env.resolver i p.name with
  | some seed =>
    match seed.level with
    | some level => modify fun m => m.updateInstance number fun i =>
        { i with overrides := i.overrides.set p.name level }
    | none => pure ()
    return { property with value := some seed.value }.check
  | none =>
    match default with
    | some (.ok v) => return { property with value := some v }.check
    | some (.error e) => return { property with error := some e }.check
    | none => return { property with hints := property.hints ++ [Hint.missingValue] }.check

def resolveParams (env : Env η) (number : Nat) (i : Instance) : List Param → Act η Unit
  | [] => pure ()
  | p :: ps => do
    let property ← resolveParam env number i p
    modify fun m => m.updateInstance number fun i =>
      { i with properties := i.properties.set p.name property }
    resolveParams env number i ps

/-- Resolves the instance with a number. -/
def resolveInstance (r : Resolver η) (number : Nat) : Act η Unit := do
  match (← get).instance? number with
  | none => pure ()
  | some i =>
    match i.parent with
    | some parent => let _ ← r.resolveClass parent
    | none => pure ()
    let env : Env η := ⟨r, .object number, i.copy⟩
    resolveParams env number i i.definition.params
    let _ ← evalStatements env i.definition.body

/-- Makes an instance of a definition, still without properties. -/
def createInstance (d : Definition) (title : Option String) (seeds : Option (Table String Seed)) :
    Act η Nat := fun m =>
  let (copy, m) := m.newCopy
  let (number, m) := m.addInstance (Instance.create d title seeds copy)
  (.ok number, m)

end Cascade
