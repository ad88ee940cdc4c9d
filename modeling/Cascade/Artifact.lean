import Cascade.Expr.Decode
/-!
Compiled artifacts: the definitions that one JSON document holds, those nested in the bodies of
definitions and in blocks included, in the order of the text.
-/
namespace Cascade

structure Artifact where
  definitions : List Definition

mutual
def Expr.definitions : Expr → List Definition
  | .node _ kind => kind.definitions

def ExprKind.definitions : ExprKind → List Definition
  | .definition d => d :: d.inner
  | .block statements => definitionsIn statements
  | _ => []

def Definition.inner : Definition → List Definition
  | ⟨_, _, _, _, body, _⟩ => definitionsIn body

def definitionsIn : List Expr → List Definition
  | [] => []
  | e :: es => e.definitions ++ definitionsIn es
end

namespace Artifact

def decode (text : String) : Except DecodeError Artifact :=
  match Json.parse text with
  | .error e => .error (.json e)
  | .ok j => do
    let root ← Expr.decode j
    return ⟨root.definitions⟩

/-- The first definition of this kind and name, up to ASCII case and leading `::`. -/
def find? (a : Artifact) (kind : DefinitionKind) (name : String) : Option Definition :=
  a.definitions.find? fun d => d.kind = kind ∧ Name.sameFold d.name (Name.bare name)

end Artifact
end Cascade
