import Cascade.Error
import Cascade.Value.Json
/-!
Decoding expressions. A call node is `{"^": [tag, arg, ...]}`, a map is `{"#": [k1, v1, ...]}`, an
array is a list, and everything else is a literal. Nodes are numbered in the order in which they are
finished, so that children have smaller numbers than their parents.

Each function below takes `sub`, which decodes the parts; `Expr.decodeWithin` ties the knot.
-/
namespace Cascade

/-- A step of decoding: the state is the number of the next node. -/
abbrev Decode := StateT Nat (Except DecodeError)

namespace Decode

def describe : Json → String
  | .null => "null"
  | .bool _ => "boolean"
  | .number _ => "number"
  | .string _ => "string"
  | .array _ => "array"
  | .object _ => "object"

def malformed {α : Type} (tag : String) (flaw : Flaw) : Except DecodeError α :=
  throw (.malformed tag flaw)

def wrongShape {α : Type} (expected : String) (found : Json) : Except DecodeError α :=
  throw (.shape expected (describe found))

def first (tag : String) : List Json → Except DecodeError Json
  | [] => malformed tag .missingArgument
  | j :: _ => pure j

def pair (tag : String) : List Json → Except DecodeError (Json × Json)
  | [a, b] => pure (a, b)
  | args => malformed tag (.argumentCount 2 args.length)

def stringArg (tag : String) : List Json → Except DecodeError String
  | .string s :: _ => pure s
  | other :: _ => malformed tag (.notAString (describe other))
  | [] => malformed tag .missingArgument

/-- A name given as a string or as a `qn` or `qr` node. -/
def nameOf? : Json → Option String
  | .string s => some s
  | j =>
    match j.get? "^" with
    | some (.array [.string tag, .string name]) =>
      if tag = "qn" ∨ tag = "qr" then some name else none
    | _ => none

def pairUp (tag : String) : List Json → Except DecodeError (List (String × Json))
  | .string key :: v :: rest => do
    let entries ← pairUp tag rest
    return (key, v) :: entries
  | other :: _ :: _ => malformed tag (.keyNotString (describe other))
  | _ => pure []

/-- The keys and values of a `#` map, in order. -/
def entriesOf (tag : String) (j : Json) : Except DecodeError (List (String × Json)) :=
  match j.get? "#" with
  | some (.array flat) =>
    if flat.length % 2 ≠ 0 then malformed tag .oddMap else pairUp tag flat
  | _ => malformed tag .notAMap

def member? (entries : List (String × Json)) (key : String) : Option Json :=
  entries.lookup key

def required (tag key : String) (entries : List (String × Json)) : Except DecodeError Json :=
  match member? entries key with
  | some j => pure j
  | none => malformed tag (.missingMember key)

/-- Gives the finished node the next number. -/
def finish (kind : ExprKind) : Decode Expr := do
  let id ← get
  set (id + 1)
  return .node id kind

variable (sub : Json → Decode Expr)

def list : List Json → Decode (List Expr)
  | [] => pure []
  | j :: js => do
    let e ← sub j
    let es ← list js
    return e :: es

/-- A list of statements, or a single one. -/
def statements : Json → Decode (List Expr)
  | .array items => list sub items
  | j => do return [← sub j]

def statementsAt (entries : List (String × Json)) (key : String) : Decode (List Expr) :=
  match member? entries key with
  | some j => statements sub j
  | none => pure []

def optional : Option Json → Decode (Option Expr)
  | some j => do return some (← sub j)
  | none => pure none

def single (tag : String) : List Json → Decode Expr
  | [j] => sub j
  | args => malformed tag (.argumentCount 1 args.length)

/-- `{"^": ["=>", key, value]}` -/
def arrow (tag : String) (j : Json) : Decode (Expr × Expr) :=
  match j.get? "^" with
  | some (.array [.string "=>", key, value]) => do
    let key ← sub key
    let value ← sub value
    return (key, value)
  | _ => malformed tag .notAnEntry

def arrows (tag : String) : List Json → Decode (List (Expr × Expr))
  | [] => pure []
  | j :: js => do
    let e ← arrow sub tag j
    let es ← arrows tag js
    return e :: es

/-- A `#` map in expression position: its keys become literals. -/
def hashEntries : List (String × Json) → Decode (List (Expr × Expr))
  | [] => pure []
  | (key, value) :: rest => do
    let key ← finish (.literal (.string key))
    let value ← sub value
    let entries ← hashEntries rest
    return (key, value) :: entries

def param (entry : String × Json) : Decode Param := do
  let spec ← entriesOf "param" entry.2
  let type ← optional sub (member? spec "type")
  let default ← optional sub (member? spec "value")
  let splat := match member? spec "splat" with
    | some (.bool true) => true
    | _ => false
  return { name := entry.1, type, default, splat }

def params : List (String × Json) → Decode (List Param)
  | [] => pure []
  | entry :: rest => do
    let p ← param sub entry
    let ps ← params rest
    return p :: ps

def definition (kind : DefinitionKind) (args : List Json) : Decode Definition := do
  let arg ← first kind.tag args
  let entries ← entriesOf kind.tag arg
  match (member? entries "name").bind nameOf? with
  | none => throw (.missingName kind)
  | some name =>
    let parent := (member? entries "parent").bind nameOf?
    let declared ← match member? entries "params" with
      | some j => monadLift (entriesOf kind.tag j)
      | none => pure []
    let params ← params sub declared
    let body ← statementsAt sub entries "body"
    let returns ← optional sub (member? entries "returns")
    return { kind, name := Name.bare name, params, parent := parent.map Name.bare, body, returns }

def functionCall (tag : String) (args : List Json) : Decode ExprKind := do
  let arg ← first tag args
  let entries ← entriesOf tag arg
  let functor ← required tag "functor" entries
  match nameOf? functor with
  | none => malformed tag .functorNotName
  | some name =>
    match member? entries "args" with
    | some (.array items) => return .call name (← list sub items)
    | some other => wrongShape "argument list" other
    | none => return .call name []

def conditional (tag : String) (args : List Json) : Decode ExprKind := do
  let arg ← first tag args
  let entries ← entriesOf tag arg
  let test ← required tag "test" entries
  let test ← sub test
  let thenBranch ← statementsAt sub entries "then"
  let elseBranch ← statementsAt sub entries "else"
  return .conditional test thenBranch elseBranch (tag == "unless")

def caseOption (j : Json) : Decode CaseOption := do
  let entries ← entriesOf "case" j
  let values ← statementsAt sub entries "when"
  let body ← statementsAt sub entries "then"
  return { values, body }

def caseOptions : List Json → Decode (List CaseOption)
  | [] => pure []
  | j :: js => do
    let o ← caseOption sub j
    let os ← caseOptions js
    return o :: os

def caseOf (args : List Json) : Decode ExprKind := do
  let (test, options) ← pair "case" args
  match options with
  | .array options =>
    let test ← sub test
    let options ← caseOptions sub options
    return .caseOf test options
  | other => wrongShape "case options" other

def selector (args : List Json) : Decode ExprKind := do
  let (test, entries) ← pair "?" args
  match entries with
  | .array entries =>
    let test ← sub test
    let entries ← arrows sub "?" entries
    return .selector test entries
  | other => wrongShape "selector entries" other

/-- `{"^": ["=>", name, value]}`, or `+>` for the arrow. -/
def attributeOp (j : Json) : Decode (String × Expr) :=
  match j.get? "^" with
  | some (.array (.string op :: rest)) =>
    match rest with
    | [name, value] =>
      if op = "=>" ∨ op = "+>" then
        match nameOf? name with
        | some name => do return (name, ← sub value)
        | none => malformed "resource" .attributeNotName
      else if op = "splat-hash" then malformed "resource" .attributeSplat
      else malformed "resource" .notAnAttribute
    | _ =>
      if op = "splat-hash" then malformed "resource" .attributeSplat
      else malformed "resource" .notAnAttribute
  | _ => malformed "resource" .notAnAttribute

def attributeOps : List Json → Decode (List (String × Expr))
  | [] => pure []
  | j :: js => do
    let a ← attributeOp sub j
    let as ← attributeOps js
    return a :: as

def resourceBody (j : Json) : Decode ResourceBody := do
  let body ← entriesOf "resource" j
  let title ← required "resource" "title" body
  let title ← sub title
  let attributes ← match member? body "ops" with
    | some (.array ops) => attributeOps sub ops
    | _ => pure []
  return { title, attributes }

def resourceBodies : List Json → Decode (List ResourceBody)
  | [] => pure []
  | j :: js => do
    let b ← resourceBody sub j
    let bs ← resourceBodies js
    return b :: bs

def resource (args : List Json) : Decode ExprKind := do
  let arg ← first "resource" args
  let entries ← entriesOf "resource" arg
  let type ← required "resource" "type" entries
  let type ← sub type
  match member? entries "bodies" with
  | some (.array bodies) => return .resource type (← resourceBodies sub bodies)
  | some other => wrongShape "resource bodies" other
  | none => return .resource type []

/-- A call node: what its tag makes of the arguments. -/
def call (tag : String) (args : List Json) : Decode ExprKind :=
  match tag with
  | "array" => do return .list (← list sub args)
  | "hash" => do return .hash (← arrows sub tag args)
  | "qr" => do return .typeReference (← stringArg tag args)
  | "qn" => do return .qualifiedName (← stringArg tag args)
  | "block" => do return .block (← list sub args)
  | "class" => do return .definition (← definition sub .hostClass args)
  | "define" => do return .definition (← definition sub .definedType args)
  | "function" => do return .definition (← definition sub .function args)
  | "$" => do return .variable (← stringArg tag args)
  | "=" => do
    let (target, value) ← pair tag args
    let target ← sub target
    let value ← sub value
    return .assignment target value
  | "access" =>
    match args with
    | [] => malformed tag .missingTarget
    | target :: keys => do
      let target ← sub target
      let keys ← list sub keys
      return .access target keys
  | "call" | "invoke" => functionCall sub tag args
  | "if" | "unless" => conditional sub tag args
  | "case" => caseOf sub args
  | "?" => selector sub args
  | "concat" => do return .concat (← list sub args)
  | "str" => do return .str (← single sub tag args)
  | "heredoc" => do
    let arg ← first tag args
    let entries ← entriesOf tag arg
    let text ← required tag "text" entries
    return .heredoc (← sub text)
  | "resource" => resource sub args
  | "return" => do return .ret (← optional sub args.head?)
  | "!" => do return .unary .not (← single sub tag args)
  | "paren" => do return .paren (← single sub tag args)
  | "default" => pure .default
  | "nop" => pure .nop
  | "regexp" => do return .regex (← stringArg tag args)
  | _ =>
    if tag = "-" ∧ args.length = 1 then do return .unary .neg (← single sub tag args)
    else match BinaryOp.ofSymbol? tag with
      | some op => do
        let (left, right) ← pair tag args
        let left ← sub left
        let right ← sub right
        return .binary op left right
      | none => pure (.unsupported tag args)

def kindOf : Json → Decode ExprKind
  | .array items => do return .list (← list sub items)
  | .object [("^", parts)] =>
    match parts with
    | .array [] => throw (.shape "call tag" "empty call")
    | .array (.string tag :: args) => call sub tag args
    | .array (tag :: _) => wrongShape "call tag string" tag
    | other => wrongShape "call array" other
  | .object [("#", flat)] => do
    let entries ← entriesOf "hash" (.object [("#", flat)])
    return .hash (← hashEntries sub entries)
  | j => pure (.literal (.ofJson j))

end Decode

mutual
def Json.height : Json → Nat
  | .array items => heightItems items + 1
  | .object members => heightMembers members + 1
  | _ => 1

def Json.heightItems : List Json → Nat
  | [] => 0
  | j :: js => max j.height (heightItems js)

def Json.heightMembers : List (String × Json) → Nat
  | [] => 0
  | (_, j) :: ms => max j.height (heightMembers ms)
end

namespace Expr

/-- Decodes documents of at most `height` levels. -/
def decodeWithin : (height : Nat) → Json → Decode Expr
  | 0, j => throw (.shape "expression" (Decode.describe j))
  | height + 1, j => do Decode.finish (← Decode.kindOf (decodeWithin height) j)

def decode (j : Json) : Except DecodeError Expr := (decodeWithin j.height j).run' 0

end Expr
end Cascade
