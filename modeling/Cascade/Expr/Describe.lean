import Cascade.Expr.Basic
import Cascade.Value.Tagged
/-!
Trees as JSON, for tools that look at them. Every node is an object with its number, the name of its
kind and its parts.
-/
namespace Cascade

mutual
def Expr.describe : Expr → Json
  | .node id kind => .ofMembers (("id", .ofNat id) :: ("k", .string kind.name) :: kind.parts)

/-- The parts of a node, each under a name. -/
def ExprKind.parts : ExprKind → List (String × Json)
  | .literal v => [("value", v.toTagged)]
  | .list es | .block es | .concat es => [("items", .array (describeAll es))]
  | .hash entries => [("entries", .array (describePairs entries))]
  | .typeReference n | .qualifiedName n | .variable n | .regex n => [("name", .string n)]
  | .definition d => [("def", d.describe)]
  | .assignment target value => [("target", target.describe), ("rhs", value.describe)]
  | .access target keys => [("target", target.describe), ("keys", .array (describeAll keys))]
  | .call n args => [("name", .string n), ("args", .array (describeAll args))]
  | .conditional test a b negated =>
    [("test", test.describe), ("then", .array (describeAll a)), ("else", .array (describeAll b)),
      ("negated", .bool negated)]
  | .caseOf test options => [("test", test.describe), ("options", .array (describeOptions options))]
  | .selector test entries => [("test", test.describe), ("entries", .array (describePairs entries))]
  | .str e | .heredoc e | .paren e => [("inner", e.describe)]
  | .ret none => [("inner", .null)]
  | .ret (some e) => [("inner", e.describe)]
  | .resource type bodies => [("type", type.describe), ("bodies", .array (describeBodies bodies))]
  | .binary op l r => [("op", .string op.symbol), ("left", l.describe), ("right", r.describe)]
  | .unary op e => [("op", .string op.symbol), ("inner", e.describe)]
  | .default | .nop => []
  | .unsupported tag args => [("tag", .string tag), ("args", .array (args.map Json.tagNumbers))]

def describeAll : List Expr → List Json
  | [] => []
  | e :: es => e.describe :: describeAll es

def describePairs : List (Expr × Expr) → List Json
  | [] => []
  | (a, b) :: es => .array [a.describe, b.describe] :: describePairs es

def describeOptions : List CaseOption → List Json
  | [] => []
  | ⟨values, body⟩ :: os =>
    .ofMembers [("when", .array (describeAll values)), ("then", .array (describeAll body))] ::
      describeOptions os

def describeAttributes : List (String × Expr) → List Json
  | [] => []
  | (name, e) :: es => .array [.string name, e.describe] :: describeAttributes es

def describeBodies : List ResourceBody → List Json
  | [] => []
  | ⟨title, attributes⟩ :: bs =>
    .ofMembers [("title", title.describe), ("ops", .array (describeAttributes attributes))] ::
      describeBodies bs

def describe? : Option Expr → Json
  | none => .null
  | some e => e.describe

def describeParams : List Param → List Json
  | [] => []
  | ⟨name, type, default, splat⟩ :: ps =>
    .ofMembers [("name", .string name), ("type", describe? type), ("default", describe? default),
      ("splat", .bool splat)] :: describeParams ps

def Definition.describe : Definition → Json
  | ⟨kind, name, params, parent, body, returns⟩ =>
    .ofMembers [("kind", .string kind.display), ("tag", .string kind.tag), ("name", .string name),
      ("parent", parent.elim .null .string), ("params", .array (describeParams params)),
      ("body", .array (describeAll body)), ("returns", describe? returns)]
end

end Cascade
