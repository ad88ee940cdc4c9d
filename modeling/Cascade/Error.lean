import Cascade.Expr.Basic
import Cascade.Json.Parser
import Cascade.Decimal.Layout
/-!
What can go wrong between an artifact and a value. `DecodeError` says why an artifact is no tree,
`EvalError` why a node has no value, and `Interrupt` how an evaluation ends without one.
-/
namespace Cascade

/-- What is wrong with the arguments of a tag. -/
inductive Flaw
  | missingArgument
  | missingTarget
  | argumentCount (expected got : Nat)
  | notAString (found : String)
  | notAMap
  | oddMap
  | keyNotString (found : String)
  | missingMember (key : String)
  | functorNotName
  | attributeNotName
  | attributeSplat
  | notAnAttribute
  | notAnEntry
  deriving DecidableEq

def Flaw.message : Flaw → String
  | missingArgument => "missing argument"
  | missingTarget => "missing access target"
  | argumentCount 1 got => "expected 1 argument, got " ++ Decimal.digitText got
  | argumentCount expected got =>
    "expected " ++ Decimal.digitText expected ++ " arguments, got " ++ Decimal.digitText got
  | notAString found => "expected a string argument, found " ++ found
  | notAMap => "expected a '#' map"
  | oddMap => "map has an odd number of elements"
  | keyNotString found => "map key must be a string, found " ++ found
  | missingMember key => "missing '" ++ key ++ "'"
  | functorNotName => "functor is not a name"
  | attributeNotName => "attribute name is not a name"
  | attributeSplat => "attribute splat is not supported"
  | notAnAttribute => "expected an attribute operation"
  | notAnEntry => "expected a '=>' entry"

inductive DecodeError
  | json (cause : JsonError)
  | malformed (tag : String) (flaw : Flaw)
  | shape (expected found : String)
  | missingName (kind : DefinitionKind)
  deriving DecidableEq

def DecodeError.message : DecodeError → String
  | json cause => "artifact is not valid JSON: " ++ cause.message
  | malformed tag flaw => "malformed '" ++ tag ++ "' node: " ++ flaw.message
  | shape expected found => "expected " ++ expected ++ ", found " ++ found
  | missingName kind => kind.display ++ " definition has no name"

/-- A word for programs that read answers. -/
def DecodeError.kind : DecodeError → String
  | json _ => "Json"
  | malformed .. => "Malformed"
  | shape .. => "Shape"
  | missingName _ => "MissingName"

inductive EvalError
  /-- Raised by the function `fail`. -/
  | fail (message : String) (node : NodeRef)
  | unknownFunction (name : String)
  | unsupported (tag : String)
  | operandMismatch (op : BinaryOp) (left right : String)
  | invalidOperand (op operand : String)
  | divisionByZero
  | overflow (op : String)
  | noSelectorMatch (value : String)
  | invalidAssignmentTarget
  | invalidAccess (target key : String)
  | arity (name : String) (expected got : Nat)
  | returnType (name expected actual : String)
  | lookupMissing (key : String)
  | cycle (kind : DefinitionKind) (name : String)
  | notFound (kind : DefinitionKind) (name : String)
  | load (kind : DefinitionKind) (name message : String)
  | decode (cause : DecodeError)
  /-- A definition failed as a whole. -/
  | compilation (kind : DefinitionKind) (name : String) (cause : EvalError)
  deriving DecidableEq

namespace EvalError

def message : EvalError → String
  | fail message node => "evaluation failed: " ++ message ++ " (at " ++ node.display ++ ")"
  | unknownFunction name => "unknown function '" ++ name ++ "'"
  | unsupported tag => "unsupported expression '" ++ tag ++ "'"
  | operandMismatch op left right =>
    "operator '" ++ op.symbol ++ "' is not defined for " ++ left ++ " and " ++ right
  | invalidOperand op operand => "cannot apply '" ++ op ++ "' to " ++ operand
  | divisionByZero => "division by zero"
  | overflow op => "integer overflow in '" ++ op ++ "'"
  | noSelectorMatch value => "no selector entry matched '" ++ value ++ "'"
  | invalidAssignmentTarget => "cannot assign to a non-variable expression"
  | invalidAccess target key => "cannot index " ++ target ++ " with " ++ key
  | arity name expected got =>
    "'" ++ name ++ "' expects " ++ Decimal.digitText expected ++ " argument(s), got " ++
      Decimal.digitText got
  | returnType name expected actual =>
    "function '" ++ name ++ "' returned " ++ actual ++ ", expected " ++ expected
  | lookupMissing key => "lookup of '" ++ key ++ "' found no value and no default was given"
  | cycle kind name => "cyclic reference to " ++ kind.display ++ " '" ++ name ++ "'"
  | notFound kind name => kind.display ++ " '" ++ name ++ "' not found"
  | load kind name message => "failed to load " ++ kind.display ++ " '" ++ name ++ "': " ++ message
  | decode cause => cause.message
  | compilation kind name cause =>
    kind.display ++ " '" ++ name ++ "' failed to compile: " ++ cause.message

/-- A word for programs that read answers. -/
def kind : EvalError → String
  | fail .. => "Fail"
  | unknownFunction _ => "UnknownFunction"
  | unsupported _ => "Unsupported"
  | operandMismatch .. => "OperandMismatch"
  | invalidOperand .. => "InvalidOperand"
  | divisionByZero => "DivisionByZero"
  | overflow _ => "Overflow"
  | noSelectorMatch _ => "NoSelectorMatch"
  | invalidAssignmentTarget => "InvalidAssignmentTarget"
  | invalidAccess .. => "InvalidAccess"
  | arity .. => "Arity"
  | returnType .. => "ReturnType"
  | lookupMissing _ => "LookupMissing"
  | cycle .. => "Cycle"
  | notFound .. => "NotFound"
  | load .. => "Load"
  | decode _ => "Parse"
  | compilation .. => "Compilation"

/-- The innermost cause, below every failed definition around it. -/
def rootCause : EvalError → EvalError
  | compilation _ _ cause => cause.rootCause
  | e => e

end EvalError

/-- Why an operation that cannot return early has no result. `exhausted` ends an evaluation whose
definitions call each other deeper than the given limit; nothing catches it. -/
inductive Fault
  | error (e : EvalError)
  | exhausted
  deriving DecidableEq

/-- How the evaluation of a node ends without a value: by `return` or by a fault. -/
inductive Interrupt
  | returned (v : Value)
  | fault (f : Fault)

abbrev Outcome := Except Interrupt Value

instance : MonadLift (Except EvalError) (Except Interrupt) where
  monadLift
    | .ok a => .ok a
    | .error e => .error (.fault (.error e))

end Cascade
