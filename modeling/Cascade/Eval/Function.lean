import Cascade.Eval.Expr
/-!
Calls of functions. Arguments are bound in order, a splat takes what is left, and what is missing is
filled from defaults, which see the parameters before them. Every call works on a copy of its own.
-/
namespace Cascade

variable {η : Type}

namespace Definition

def requiredCount (d : Definition) : Nat :=
  (d.params.filter fun p => !p.splat && p.default.isNone).length

def positionalCount (d : Definition) : Nat := (d.params.filter fun p => !p.splat).length

/-- Checks the number of arguments before anything is evaluated. -/
def checkArity (d : Definition) (got : Nat) : Except EvalError Unit :=
  if got < d.requiredCount then .error (.arity d.name d.requiredCount got)
  else if !d.params.any (·.splat) && d.positionalCount < got then
    .error (.arity d.name d.positionalCount got)
  else .ok ()

end Definition

/-- Runs `x` with a new copy and no variables, and then brings back the variables of the caller. -/
def withCall {α : Type} (x : (copy : Nat) → Act η α) : Act η α := fun m =>
  let saved := m.frame
  let (copy, m) := m.newCopy
  let (r, m) := (x copy).run { m with frame := [] }
  (r, { m.dropCopy copy with frame := saved })

def bindVariable (name : String) (v : Value) : Act η Unit :=
  modify fun m => { m with frame := m.frame.set name v }

/-- Gives every parameter its value. -/
def bindParams (env : Env η) : (args : List Value) → List Param → Act η Unit
  | _, [] => pure ()
  | args, p :: ps => do
    if p.splat then
      bindVariable p.name (.array args)
      bindParams env [] ps
    else match args, p.default with
      | v :: rest, _ => do
        bindVariable p.name v
        bindParams env rest ps
      | [], some e => do
        bindVariable p.name (← Eval.settle (eval env e))
        bindParams env [] ps
      | [], none => do
        bindVariable p.name .undef
        bindParams env [] ps

/-- Holds the value of a call against the declared type of the function. -/
def checkReturn (env : Env η) (d : Definition) (v : Value) : Act η Unit := do
  match d.returns with
  | none => pure ()
  | some e =>
    match ← Eval.settle (eval env e) with
    | .type name params =>
      let expected : TypeRef := ⟨name, params⟩
      if !expected.accepts v then Act.error (.returnType d.name expected.display v.typeName)
    | _ => pure ()

def invokeFunction (r : Resolver η) (d : Definition) (args : List Value) : Act η Value := do
  match d.checkArity args.length with
  | .error e => Act.error e
  | .ok _ => withCall fun copy => do
    let env : Env η := ⟨r, .frame, copy⟩
    bindParams env args d.params
    let v ← evalStatements env d.body
    checkReturn env d v
    return v

end Cascade
