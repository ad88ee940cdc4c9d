import Cascade.Eval.Builtin
import Cascade.Eval.Operators
/-!
The evaluation of expressions. Every node goes through its cell, so it is evaluated once per copy of
its tree. Parts are evaluated from left to right, and the first that does not end with a value decides
how the whole ends; only the scope may turn a failed assignment into a value.
-/
namespace Cascade

variable {η : Type}

/-- The type name of declared resources. -/
def resourceTypeName : Value → String
  | .type name _ => Text.lowercase name
  | v => Text.lowercase v.display

def resourceTitles : Value → List Value
  | .array items => items
  | v => [v]

/-- Declares one resource for each title; the title of a class resolves that class instead. -/
def declareTitles (env : Env η) (typeName : String) (attributes : Table String Value) :
    List Value → Eval η (List Value)
  | [] => return []
  | title :: rest => do
    let title := title.display
    if typeName = "class" then
      let _ ← env.resolver.resolveClass (Name.bare title)
    else env.scope.declareResource ⟨typeName, title, attributes⟩
    return .resource typeName title :: (← declareTitles env typeName attributes rest)

/-- Calls a function of a module. -/
def callFunction (env : Env η) (name : String) (args : Eval η (List Value)) : Eval η Value := do
  match ← env.resolver.resolveFunction name with
  | none => Eval.error (.unknownFunction name)
  | some d =>
    let args ← args
    (Act.mapError (.compilation .function name) (env.resolver.invoke d args) : Act η Value)

/-- The result of `and` or `or` where the left operand decides. -/
def shortcut? (op : BinaryOp) (left : Value) : Option Value :=
  match op with
  | .and => if left.isTruthy then none else some (.bool false)
  | .or => if left.isTruthy then some (.bool true) else none
  | _ => none

def assignmentTarget? : Expr → Option String
  | .node _ (.variable name) => some name
  | _ => none

mutual

def eval (env : Env η) : Expr → Eval η Value
  | .node id kind => Eval.memo env.copy id (evalKind env ⟨id, kind.name⟩ kind)

def evalKind (env : Env η) (node : NodeRef) : ExprKind → Eval η Value
  | .literal v => return v
  | .default => return .default
  | .nop | .definition _ => return .undef
  | .regex source => return .regex source
  | .typeReference name => return .type name []
  | .qualifiedName name => return .string name
  | .list items => return .array (← evalAll env items)
  | .hash entries => return .hash (← evalEntries env [] entries)
  | .block statements => evalSequence env .undef statements
  | .variable name => env.lookupVariable name
  | .assignment target value => do
    match assignmentTarget? target with
    | none => Eval.error .invalidAssignmentTarget
    | some name =>
      let outcome ← Eval.attempt (eval env value)
      env.scope.assign name outcome
  | .access target keys => do
    let target ← eval env target
    let keys ← evalAll env keys
    Value.access target keys
  | .call name args => do
    match Builtin.ofName? (Name.bare name) with
    | some .ignored => return .undef
    | some .ret => throw (.returned (← evalFirst env args))
    | some b => b.apply env node (← evalAll env args)
    | none => callFunction env (Name.bare name) (evalAll env args)
  | .conditional test thenBranch elseBranch negated => do
    let test ← eval env test
    if test.isTruthy == negated then evalSequence env .undef elseBranch
    else evalSequence env .undef thenBranch
  | .caseOf test options => do evalCase env (← eval env test) options
  | .selector test entries => do evalSelector env (← eval env test) entries
  | .concat segments => return .string (← evalConcat env segments)
  | .str inner | .heredoc inner => return .string (← eval env inner).display
  | .resource typeName bodies => do
    let typeName ← eval env typeName
    return Value.oneOrArray (← evalBodies env (resourceTypeName typeName) bodies)
  | .ret none => throw (.returned .undef)
  | .ret (some value) => do throw (.returned (← eval env value))
  | .binary op left right => do
    let left ← eval env left
    match shortcut? op left with
    | some v => return v
    | none => Value.binary op left (← eval env right)
  | .unary op operand => do Value.unary op (← eval env operand)
  | .paren inner => eval env inner
  | .unsupported tag _ => Eval.error (.unsupported tag)

def evalAll (env : Env η) : List Expr → Eval η (List Value)
  | [] => return []
  | e :: es => do
    let v ← eval env e
    return v :: (← evalAll env es)

/-- The value of the first expression, if there is one. -/
def evalFirst (env : Env η) : List Expr → Eval η Value
  | [] => return .undef
  | e :: _ => eval env e

/-- Statements in order; the value is that of the last one, or `last` if there is none. -/
def evalSequence (env : Env η) (last : Value) : List Expr → Eval η Value
  | [] => return last
  | e :: es => do evalSequence env (← eval env e) es

/-- Keys become their text; of a repeated key the last value counts. -/
def evalEntries (env : Env η) (done : Table String Value) :
    List (Expr × Expr) → Eval η (Table String Value)
  | [] => return done
  | (k, v) :: es => do
    let k ← eval env k
    let v ← eval env v
    evalEntries env (Table.set done k.display v) es

def evalConcat (env : Env η) : List Expr → Eval η String
  | [] => return ""
  | e :: es => do
    let v ← eval env e
    return v.display ++ (← evalConcat env es)

/-- Whether one of the values matches; those after the first match are not evaluated. -/
def evalMatch (env : Env η) (v : Value) : List Expr → Eval η Bool
  | [] => return false
  | e :: es => do
    let option ← eval env e
    if Value.matchesAlternative v option then return true else evalMatch env v es

def evalCase (env : Env η) (v : Value) : List CaseOption → Eval η Value
  | [] => return .undef
  | ⟨values, body⟩ :: rest => do
    if ← evalMatch env v values then evalSequence env .undef body else evalCase env v rest

def evalSelector (env : Env η) (v : Value) : List (Expr × Expr) → Eval η Value
  | [] => Eval.error (.noSelectorMatch v.display)
  | (key, result) :: rest => do
    let option ← eval env key
    if Value.matchesAlternative v option then eval env result else evalSelector env v rest

def evalAttributes (env : Env η) (done : Table String Value) :
    List (String × Expr) → Eval η (Table String Value)
  | [] => return done
  | (name, e) :: rest => do
    let v ← eval env e
    evalAttributes env (done.set name v) rest

def evalBodies (env : Env η) (typeName : String) : List ResourceBody → Eval η (List Value)
  | [] => return []
  | ⟨title, attributes⟩ :: rest => do
    let title ← eval env title
    let attributes ← evalAttributes env [] attributes
    let refs ← declareTitles env typeName attributes (resourceTitles title)
    return refs ++ (← evalBodies env typeName rest)

end

/-- The statements of a class or function: the value of `return`, or else of the last one. -/
def evalStatements (env : Env η) (statements : List Expr) : Act η Value :=
  Eval.settle (evalSequence env .undef statements)

end Cascade
