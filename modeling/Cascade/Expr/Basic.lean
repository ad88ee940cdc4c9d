import Cascade.Value.Basic
import Cascade.Json.Basic
/-!
Expressions and definitions. Every node of a decoded tree carries a number that is unique within the
tree; an evaluation keeps what it knows about a node under that number, never in the node.
-/
namespace Cascade

inductive DefinitionKind
  | hostClass
  | definedType
  | function
  deriving DecidableEq, Inhabited

namespace DefinitionKind

/-- The tag that introduces a definition of this kind. -/
def tag : DefinitionKind → String
  | hostClass => "class"
  | definedType => "define"
  | function => "function"

def display : DefinitionKind → String
  | hostClass => "class"
  | definedType => "defined type"
  | function => "function"

end DefinitionKind

inductive BinaryOp
  | eq | notEq | lt | ltEq | gt | gtEq | add | sub | mul | div | mod | and | or | in
  deriving DecidableEq, Inhabited

namespace BinaryOp

def symbol : BinaryOp → String
  | eq => "=="
  | notEq => "!="
  | lt => "<"
  | ltEq => "<="
  | gt => ">"
  | gtEq => ">="
  | add => "+"
  | sub => "-"
  | mul => "*"
  | div => "/"
  | mod => "%"
  | and => "and"
  | or => "or"
  | «in» => "in"

def all : List BinaryOp :=
  [eq, notEq, lt, ltEq, gt, gtEq, add, sub, mul, div, mod, and, or, «in»]

def ofSymbol? (s : String) : Option BinaryOp := all.find? fun op => op.symbol == s

end BinaryOp

inductive UnaryOp
  | not
  | neg
  deriving DecidableEq, Inhabited

def UnaryOp.symbol : UnaryOp → String
  | not => "!"
  | neg => "-"

mutual

inductive Expr
  | node (id : Nat) (kind : ExprKind)

inductive ExprKind
  | literal (v : Value)
  | list (items : List Expr)
  | hash (entries : List (Expr × Expr))
  | typeReference (name : String)
  | qualifiedName (name : String)
  | block (statements : List Expr)
  | definition (d : Definition)
  | variable (name : String)
  | assignment (target value : Expr)
  | access (target : Expr) (keys : List Expr)
  | call (name : String) (args : List Expr)
  /-- With `negated` the first branch is taken when the test is falsy. -/
  | conditional (test : Expr) (thenBranch elseBranch : List Expr) (negated : Bool)
  | caseOf (test : Expr) (options : List CaseOption)
  | selector (test : Expr) (entries : List (Expr × Expr))
  | concat (segments : List Expr)
  | str (inner : Expr)
  | heredoc (inner : Expr)
  | resource (typeName : Expr) (bodies : List ResourceBody)
  | ret (value : Option Expr)
  | binary (op : BinaryOp) (left right : Expr)
  | unary (op : UnaryOp) (operand : Expr)
  | paren (inner : Expr)
  | default
  | nop
  | regex (source : String)
  /-- A tag this library does not know; it fails only when it is evaluated. -/
  | unsupported (tag : String) (args : List Json)

/-- `when values then body` -/
structure CaseOption where
  values : List Expr
  body : List Expr

/-- `title: attribute => value, ...` -/
structure ResourceBody where
  title : Expr
  attributes : List (String × Expr)

structure Param where
  name : String
  type : Option Expr
  default : Option Expr
  /-- Takes all arguments that are left. -/
  splat : Bool

structure Definition where
  kind : DefinitionKind
  name : String
  params : List Param
  /-- The class this one inherits. -/
  parent : Option String
  body : List Expr
  returns : Option Expr

end

instance : Inhabited Expr := ⟨.node 0 .nop⟩

def Expr.id : Expr → Nat
  | node id _ => id

def Expr.kind : Expr → ExprKind
  | node _ kind => kind

def ExprKind.name : ExprKind → String
  | literal _ => "literal"
  | list _ => "list"
  | hash _ => "hash"
  | typeReference _ => "type reference"
  | qualifiedName _ => "qualified name"
  | block _ => "block"
  | definition d => d.kind.tag
  | .variable _ => "variable"
  | assignment .. => "assignment"
  | access .. => "access"
  | call .. => "call"
  | conditional .. => "if"
  | caseOf .. => "case"
  | selector .. => "selector"
  | concat _ => "concat"
  | str _ => "str"
  | heredoc _ => "heredoc"
  | resource .. => "resource"
  | ret _ => "return"
  | binary .. => "binary"
  | unary .. => "unary"
  | paren _ => "paren"
  | default => "default"
  | nop => "nop"
  | regex _ => "regexp"
  | unsupported .. => "unsupported"

/-- What a message says about the node it came from. -/
structure NodeRef where
  id : Nat
  kind : String
  deriving DecidableEq, Inhabited

def NodeRef.display (r : NodeRef) : String := r.kind ++ " node #" ++ toString r.id

def Expr.nodeRef (e : Expr) : NodeRef := ⟨e.id, e.kind.name⟩

namespace Definition

def param? (d : Definition) (name : String) : Option Param := d.params.find? (·.name == name)

end Definition
end Cascade
