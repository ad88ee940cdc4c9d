import Cascade.Eval.Access
import Cascade.Eval.Resolver
/-!
Functions that are always there. They come before the functions of modules and get their arguments
evaluated, but for `return` and the ones that do nothing.
-/
namespace Cascade

inductive Builtin
  /-- Writes a message to a log that nothing here can see. -/
  | message
  /-- Does nothing. -/
  | ignored
  | fail
  | «include»
  | ret
  | lookup
  | defined
  deriving DecidableEq

namespace Builtin

def table : Table String Builtin :=
  [("alert", message), ("contain", «include»), ("create_resources", ignored), ("debug", message),
    ("defined", defined), ("ensure_packages", ignored), ("err", message), ("fail", fail),
    ("include", «include»), ("info", message), ("lookup", lookup), ("notice", message),
    ("require", «include»), ("return", ret), ("warning", message)]

def ofName? (name : String) : Option Builtin := table.get? name

variable {η : Type}

/-- The arguments with blanks between them. -/
def messageText (args : List Value) : String := " ".intercalate (args.map Value.display)

def includeClasses (r : Resolver η) (names : List String) : Act η Unit :=
  names.forM fun name => do let _ ← r.resolveClass name

/-- `lookup(key)`, `lookup(key, default)` or `lookup(key, type, merge, default)`. -/
def lookupDefault? : List Value → Option Value
  | _ :: _ :: _ :: v :: _ => some v
  | [_, .type ..] => none
  | [_, v] => some v
  | _ => none

def lookupKey (r : Resolver η) (args : List Value) : Act η Value := do
  match args with
  | [] => Act.error (.arity "lookup" 1 0)
  | key :: _ =>
    match r.global? (← get).host key.display with
    | some v => return v
    | none => match lookupDefault? args with
      | some v => return v
      | none => Act.error (.lookupMissing key.display)

/-- Whether a value names something that exists: a variable, a function or a class. -/
def isDefined (env : Env η) (v : Value) : Act η Bool := do
  match v with
  | .string s =>
    match s.toList with
    | '$' :: name => do
      let m ← get
      return (env.scope.lookup m (String.ofList name)).isSome ||
        (env.resolver.lookupGlobal m.host (String.ofList name)).exists
    | _ => do
      let name := Name.bare s
      if (ofName? name).isSome then return true
      else if (← env.resolver.resolveFunction name).isSome then return true
      else Act.succeeds (env.resolver.resolveClass name)
  | .resource typeName title =>
    if typeName = "class" then Act.succeeds (env.resolver.resolveClass title) else return true
  | .type .. => return true
  | _ => return false

def anyDefined (env : Env η) : List Value → Act η Bool
  | [] => return false
  | v :: vs => do if ← isDefined env v then return true else anyDefined env vs

/-- What a function does with its evaluated arguments; `node` is the call. -/
def apply (b : Builtin) (env : Env η) (node : NodeRef) (args : List Value) : Eval η Value := do
  match b with
  | message | ignored => return .undef
  | fail => Eval.error (.fail (messageText args) node)
  | «include» =>
    includeClasses env.resolver (Value.classNamesOf args)
    return .undef
  | ret => throw (.returned (args.head?.getD .undef))
  | lookup => lookupKey env.resolver args
  | defined => return .bool (← anyDefined env args)

end Builtin
end Cascade
