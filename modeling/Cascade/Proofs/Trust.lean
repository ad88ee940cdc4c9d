import Cascade.Proofs.Binding
import Cascade.Proofs.Node.Caching
import Cascade.Proofs.Text
/-!
What the facts of a node cannot change: its identity, which templates see under the name `trusted`. No
fact of that name stands over it, whether it comes with the node or from the header of a data file, and
a reference below that name never leads out of it.
-/
namespace Cascade

namespace Template

variable {root : String} {scope scope' : Value} {p : Piece} {template : String}

/-- Whether a piece depends on nothing but what stands below a name. -/
def Piece.isBelow (root : String) : Piece → Bool
  | .literal _ => true
  | .reference path => (root.toList ++ ['.']).isPrefixOf (Name.dropColons (Text.trim path))

/-- Whether a template has nothing but characters and references that start with a name and a point. -/
def isBelow (root template : String) : Bool := (pieces template.toList).all (Piece.isBelow root)

/-- A reference below a name goes on from what the name leads to. -/
theorem walk_below (hroot : '.' ∉ root.toList) (rest : List Char) (scope : Value) :
    walk (Text.splitBy (· = '.') (root.toList ++ '.' :: rest)) scope =
      (member? root.toList scope).bind (walk (Text.splitBy (· = '.') rest)) := by
  rw [Text.splitBy_append_cons hroot, walk]

theorem valueText_below (hroot : '.' ∉ root.toList)
    (hsame : member? root.toList scope' = member? root.toList scope) {path : List Char}
    (hp : Piece.isBelow root (.reference path) = true) :
    valueText scope' path = valueText scope path := by
  obtain ⟨rest, hrest⟩ := List.isPrefixOf_iff_prefix.mp hp
  rw [List.append_assoc, List.singleton_append] at hrest
  unfold valueText
  split
  next hnil => rfl
  next hne => rw [← hrest, walk_below hroot, walk_below hroot, hsame]

theorem interpolatePath_below (hroot : '.' ∉ root.toList)
    (hsame : member? root.toList scope' = member? root.toList scope)
    (ht : isBelow root template = true) :
    interpolatePath scope' template = interpolatePath scope template := by
  have hpiece : ∀ p ∈ pieces template.toList, p.expand isSafe scope' = p.expand isSafe scope := by
    intro p hp
    cases p with
    | literal c => rfl
    | reference path =>
      have hbelow := List.all_eq_true.mp ht _ hp
      rw [Piece.expand, Piece.expand, valueText_below hroot hsame hbelow]
  rw [interpolatePath, interpolatePath, expand, expand, List.flatMap_congr hpiece]

end Template

namespace Compiled

/-- Facts leave what stands under `trusted` as it is. -/
theorem member?_trusted (facts trusted : Facts) :
    Template.member? "trusted".toList (scope facts trusted) = some (.hash trusted) := by
  rw [scope, Template.member?, String.ofList_toList, Table.get?_set_self]

end Compiled

namespace Node

variable {files files' : Files} {certname : String} {facts facts' : Facts} {h : Hierarchy}
  {loader loader' : Loader} {n n' : Node}

theorem globalAt?_trusted (n : Node) :
    n.globalAt? "trusted" = some (.hash n.identity.facts, none) := by
  have hbare : Name.bare "trusted" = "trusted" := by decide
  have hlike : n.factLike? "trusted" = some (.hash n.identity.facts) := by
    rw [factLike?, if_neg (by decide), if_pos rfl]
  rw [globalAt?, global?, lookupGlobal, hbare, hlike]
  rfl

/-- Nodes of one name that have been made with one hierarchy agree on all that `trusted` stands for,
whatever their facts are and whatever their files say of them: on the global variable, and on the path
of every level whose references all lead there. -/
theorem trusted_of_create (hn : create files certname facts h loader = .ok n)
    (hn' : create files' certname facts' h loader' = .ok n') :
    n.globalAt? "trusted" = some (.hash (Identity.ofCertname certname).facts, none) ∧
      n'.globalAt? "trusted" = n.globalAt? "trusted" ∧
      ∀ (i : Nat) (level : Level), h.levels[i]? = some level →
        Template.isBelow "trusted" level.template = true → ∃ l l' : CompiledLevel,
          n.compiled.levels[i]? = some l ∧ n'.compiled.levels[i]? = some l' ∧ l.level = level ∧
            l'.level = level ∧ l'.path = l.path := by
  obtain ⟨c, hc, rfl⟩ := exists_of_create hn
  obtain ⟨c', hc', rfl⟩ := exists_of_create hn'
  refine ⟨globalAt?_trusted _, by rw [globalAt?_trusted, globalAt?_trusted], fun i level hi ht => ?_⟩
  have hlevels := Compiled.forall₂_binds (Compiled.bindLevels_of_compile hc)
  have hlevels' := Compiled.forall₂_binds (Compiled.bindLevels_of_compile hc')
  obtain ⟨l, hl, hb⟩ := exists_of_forall₂ hlevels hi
  obtain ⟨l', hl', hb'⟩ := exists_of_forall₂ hlevels' hi
  refine ⟨l, l', hl, hl', hb.source, hb'.source, ?_⟩
  -- whatever the headers made of the facts, `trusted` leads to the same in both scopes
  have hsame : Template.member? "trusted".toList (Compiled.scope c'.facts (Identity.ofCertname
      certname).facts) = Template.member? "trusted".toList (Compiled.scope c.facts
        (Identity.ofCertname certname).facts) := by
    rw [Compiled.member?_trusted, Compiled.member?_trusted]
  rw [hb.path, hb'.path, Template.interpolatePath_below (by decide) hsame ht]

/-- The header of a file claims another identity. -/
def forgedFiles : Files :=
  ⟨[(["data"], .directory 0), (["data", "common.yaml"], .file (.text
    "# trusted = \x7b\"certname\": \"root\"\x7d\n# certname = \"root\"\n") 0)], [], 0⟩

def forgedFacts : Facts :=
  [("trusted", .hash [("certname", .string "admin")]), ("certname", .string "admin")]

def namedHierarchy : Hierarchy :=
  ⟨5, "data", none, [⟨"node", "nodes/%\x7b::trusted.certname\x7d.yaml", none, none⟩,
    ⟨"common", "common.yaml", none, none⟩]⟩

theorem forged_trusted : ∃ n n',
    create forgedFiles "web.example.com" [] namedHierarchy .shelf = .ok n ∧
    create forgedFiles "web.example.com" forgedFacts namedHierarchy .shelf = .ok n' ∧
    n'.globalAt? "trusted" = n.globalAt? "trusted" ∧
    ∃ l l' : CompiledLevel, n.compiled.levels[0]? = some l ∧ n'.compiled.levels[0]? = some l' ∧
      l'.path = l.path := by
  obtain ⟨n, hn⟩ := exists_of_isOk (show (create forgedFiles "web.example.com" [] namedHierarchy
    .shelf).isOk = true by decide +kernel)
  obtain ⟨n', hn'⟩ := exists_of_isOk (show (create forgedFiles "web.example.com" forgedFacts
    namedHierarchy .shelf).isOk = true by decide +kernel)
  obtain ⟨-, hglobal, hpaths⟩ := trusted_of_create hn hn'
  obtain ⟨l, l', hl, hl', -, -, hpath⟩ := hpaths 0 _ rfl (by decide +kernel)
  exact ⟨n, n', hn, hn', hglobal, l, l', hl, hl', hpath⟩

end Node
end Cascade
