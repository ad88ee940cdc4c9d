import Cascade.Proofs.Interpolation
import Cascade.Proofs.Name
import Cascade.Proofs.Node.Bound
import Cascade.Proofs.Text
/-!
Global variables. A name can be looked up for its value, for whether and where it is defined, and as a
reference of a template. All of these put the facts, with what the headers of data files set, over the
parts of the identity, and both over the levels, which templates do not see at all.
-/
namespace Cascade

namespace Template

variable {name : String} {scope : Value}

/-- A name without a point leads one step down. -/
theorem valueText_of_name (hne : Name.bare name ≠ "") (hdot : '.' ∉ name.toList)
    (htrim : Text.trim name.toList = name.toList) : valueText scope name.toList =
      ((member? (Name.bare name).toList scope).map Value.display).getD "" := by
  have hbare : Name.dropColons name.toList = (Name.bare name).toList := (Name.toList_bare name).symm
  have hdot' : '.' ∉ (Name.bare name).toList := by
    rw [← hbare]
    exact fun hm => hdot ((Name.dropColons_suffix _).subset hm)
  have hnil : (Name.bare name).toList ≠ [] := fun h => hne (String.toList_inj.mp h)
  unfold valueText
  rw [htrim, hbare]
  split
  next h => exact absurd h hnil
  next =>
    rw [Text.splitBy_singleton hdot', walk]
    cases member? (Name.bare name).toList scope <;> rfl

end Template

namespace Compiled

variable {c : Compiled} {key : String} {v : Value} {n : Nat}

/-- A level has a key with a value, and no level before it has the key. -/
def DefinedAt (c : Compiled) (key : String) (n : Nat) (v : Value) : Prop :=
  (∃ l, c.levels[n]? = some l ∧ l.get? key = some v) ∧
    ∀ j < n, ∀ l, c.levels[j]? = some l → l.get? key = none

theorem lookup_eq_some_iff : c.lookup key = some (v, n) ↔ c.DefinedAt key n v := by
  constructor
  · intro h
    by_cases hex : ∃ n v, c.DefinedAt key n v
    · obtain ⟨n', v', hd⟩ := hex
      obtain ⟨⟨l, hl, hv⟩, hbefore⟩ := hd
      have h' := lookup_eq_some hl hv hbefore
      rw [h] at h'
      obtain ⟨rfl, rfl⟩ := Prod.mk.inj (Option.some.inj h')
      exact ⟨⟨l, hl, hv⟩, hbefore⟩
    · have hnone : ∀ (j : Nat) (l : CompiledLevel), c.levels[j]? = some l → l.get? key = none := by
        intro j
        -- if no level before has the key, one that has it would be the first
        induction j using Nat.strong_induction_on with
        | _ j ih =>
          intro l hl
          cases hv : l.get? key with
          | none => rfl
          | some v' => exact absurd ⟨j, v', ⟨l, hl, hv⟩, ih⟩ hex
      rw [lookup_eq_none hnone] at h
      exact absurd h nofun
  · rintro ⟨⟨l, hl, hv⟩, hbefore⟩
    exact lookup_eq_some hl hv hbefore

end Compiled

namespace Node

variable {n : Node} {name : String}

/-- What the templates of a node are filled in from. -/
def scope (n : Node) : Value := Compiled.scope n.effectiveFacts n.identity.facts

/-- Whether a name stands for all facts, for the identity, or for a part of one of them. -/
def Knows (n : Node) (name : String) : Prop :=
  name = "facts" ∨ name = "trusted" ∨ name ∈ Table.keys n.effectiveFacts ∨
    name ∈ ["certname", "hostname", "domain"]

theorem factLike?_isSome_iff : (n.factLike? name).isSome ↔ n.Knows name := by
  have hidentity : (n.identity.get? name).isSome ↔ name ∈ ["certname", "hostname", "domain"] := by
    rw [Identity.get?, Table.isSome_get?_iff]
    simp only [Identity.facts, Table.keys, List.map_cons, List.map_nil, List.mem_cons]
    tauto
  rw [Knows, ← hidentity, ← Table.isSome_get?_iff, factLike?]
  split
  next h => simp [h]
  next h =>
    split
    next h' => simp [h']
    next h' =>
      rw [Option.orElse_eq_orElse, Option.orElse_eq_or, Option.isSome_or, Bool.or_eq_true]
      exact ⟨fun hs => .inr (.inr hs), fun hs => (hs.resolve_left h).resolve_left h'⟩

/-- Templates see what is known of a name, and nothing else. -/
theorem member?_scope (hn : (Table.keys n.effectiveFacts).Nodup) (name : String) :
    Template.member? name.toList n.scope = n.factLike? name := by
  have hmerge := Table.get?_merge_of_nodup n.identity.facts hn name
  rw [scope, Compiled.scope, Template.member?, String.ofList_toList, Table.get?_set, Table.get?_set,
    hmerge, factLike?]
  by_cases htrusted : "trusted" = name
  · subst htrusted
    rfl
  · rw [if_neg htrusted]
    by_cases hfacts : "facts" = name
    · subst hfacts
      rfl
    · rw [if_neg hfacts, if_neg (Ne.symm hfacts), if_neg (Ne.symm htrusted)]
      rw [Option.orElse_eq_orElse, Option.orElse_eq_or]
      rfl

theorem interpolate_reference (hn : n.Bound) (hne : Name.bare name ≠ "") (hdot : '.' ∉ name.toList)
    (hbrace : '}' ∉ name.toList) (htrim : Text.trim name.toList = name.toList) :
    Template.interpolate n.scope ("%\x7b" ++ name ++ "\x7d") =
      ((n.factLike? (Name.bare name)).map Value.display).getD "" := by
  have hvalue := Template.interpolate_referenceTo hbrace n.scope
  rwa [Template.valueText_of_name hne hdot htrim, member?_scope hn.nodup_effectiveFacts] at hvalue

theorem globalAt?_of_factLike {v : Value} (h : n.factLike? (Name.bare name) = some v) :
    n.globalAt? name = some (v, none) ∧ n.lookupGlobal name = .unknownLevel := by
  have hlookup : n.lookupGlobal name = .unknownLevel := by simp [lookupGlobal, h]
  exact ⟨by simp [globalAt?, global?, hlookup, h, GlobalLookup.level?], hlookup⟩

theorem globalAt?_of_lookup (h : n.factLike? (Name.bare name) = none) {v : Value} {level : Nat}
    (hl : n.compiled.lookup (Name.bare name) = some (v, level)) :
    n.globalAt? name = some (v, some level) ∧ n.lookupGlobal name = .level level := by
  have hlookup : n.lookupGlobal name = .level level := by simp [lookupGlobal, h, hl]
  exact ⟨by simp [globalAt?, global?, hlookup, h, hl, GlobalLookup.level?], hlookup⟩

theorem globalAt?_of_lookup_none (h : n.factLike? (Name.bare name) = none)
    (hl : n.compiled.lookup (Name.bare name) = none) :
    n.globalAt? name = none ∧ n.lookupGlobal name = .missing := by
  have hlookup : n.lookupGlobal name = .missing := by simp [lookupGlobal, h, hl]
  exact ⟨by simp [globalAt?, global?, h, hl], hlookup⟩

/-- The three ways a name can go: it is known, or else the first level that has it defines it, or else
nothing does. -/
theorem globalAt?_cases (n : Node) (name : String) :
    (∃ v, n.Knows (Name.bare name) ∧ n.factLike? (Name.bare name) = some v ∧
      n.globalAt? name = some (v, none) ∧ n.lookupGlobal name = .unknownLevel) ∨
    (∃ v level, ¬n.Knows (Name.bare name) ∧ n.compiled.DefinedAt (Name.bare name) level v ∧
      n.globalAt? name = some (v, some level) ∧ n.lookupGlobal name = .level level) ∨
    (¬n.Knows (Name.bare name) ∧ (∀ level v, ¬n.compiled.DefinedAt (Name.bare name) level v) ∧
      n.globalAt? name = none ∧ n.lookupGlobal name = .missing) := by
  cases hk : n.factLike? (Name.bare name) with
  | some v =>
    have hknows : n.Knows (Name.bare name) := factLike?_isSome_iff.mp (by rw [hk]; rfl)
    exact .inl ⟨v, hknows, rfl, globalAt?_of_factLike hk⟩
  | none =>
    have hnot : ¬n.Knows (Name.bare name) := fun h => by
      have hsome := factLike?_isSome_iff.mpr h
      rw [hk] at hsome
      exact Bool.false_ne_true hsome
    cases hl : n.compiled.lookup (Name.bare name) with
    | some found =>
      obtain ⟨v, level⟩ := found
      exact .inr (.inl ⟨v, level, hnot, Compiled.lookup_eq_some_iff.mp hl, globalAt?_of_lookup hk hl⟩)
    | none =>
      refine .inr (.inr ⟨hnot, fun level v hd => ?_, globalAt?_of_lookup_none hk hl⟩)
      rw [Compiled.lookup_eq_some_iff.mpr hd] at hl
      exact absurd hl nofun

theorem lookupGlobal_eq_missing_iff : n.lookupGlobal name = .missing ↔ n.globalAt? name = none := by
  obtain ⟨v, -, -, hat, hlookup⟩ | ⟨v, level, -, -, hat, hlookup⟩ | ⟨-, -, hat, hlookup⟩ :=
    n.globalAt?_cases name <;> simp [hat, hlookup]

theorem lookupGlobal_eq_level_iff {level : Nat} : n.lookupGlobal name = .level level ↔
    ¬n.Knows (Name.bare name) ∧ ∃ v, n.compiled.DefinedAt (Name.bare name) level v := by
  obtain ⟨v, hknows, -, -, hlookup⟩ | ⟨v, first, hnot, hd, -, hlookup⟩ | ⟨hnot, hnone, -, hlookup⟩ :=
    n.globalAt?_cases name
  · rw [hlookup]
    exact ⟨fun h => absurd h nofun, fun h => absurd hknows h.1⟩
  · rw [hlookup]
    constructor
    · intro h
      obtain rfl := GlobalLookup.level.inj h
      exact ⟨hnot, v, hd⟩
    · rintro ⟨-, v', hd'⟩
      have hsame := Compiled.lookup_eq_some_iff.mpr hd
      rw [Compiled.lookup_eq_some_iff.mpr hd'] at hsame
      rw [(Prod.mk.inj (Option.some.inj hsame)).2]
  · rw [hlookup]
    refine ⟨fun h => absurd h nofun, ?_⟩
    rintro ⟨-, v, hd⟩
    exact absurd hd (hnone level v)

theorem globalAt?_of_definedAt {level : Nat} {v : Value} (h : ¬n.Knows (Name.bare name))
    (hd : n.compiled.DefinedAt (Name.bare name) level v) :
    n.globalAt? name = some (v, some level) := by
  have hlike := Option.not_isSome_iff_eq_none.mp (mt factLike?_isSome_iff.mp h)
  exact (globalAt?_of_lookup hlike (Compiled.lookup_eq_some_iff.mpr hd)).1

/-- A template sees the value of a name that is known, and nothing of any other. -/
theorem interpolate_name (hn : n.Bound) (hne : Name.bare name ≠ "") (hdot : '.' ∉ name.toList)
    (hbrace : '}' ∉ name.toList) (htrim : Text.trim name.toList = name.toList) :
    (n.Knows (Name.bare name) → ∃ v, n.globalAt? name = some (v, none) ∧
      Template.interpolate n.scope ("%\x7b" ++ name ++ "\x7d") = v.display) ∧
    (¬n.Knows (Name.bare name) →
      Template.interpolate n.scope ("%\x7b" ++ name ++ "\x7d") = "") := by
  rw [interpolate_reference hn hne hdot hbrace htrim]
  refine ⟨fun h => ?_, fun h => ?_⟩
  · obtain ⟨v, hv⟩ := Option.isSome_iff_exists.mp (factLike?_isSome_iff.mpr h)
    exact ⟨v, (globalAt?_of_factLike hv).1, by rw [hv]; rfl⟩
  · rw [Option.not_isSome_iff_eq_none.mp (mt factLike?_isSome_iff.mp h)]
    rfl

/-- All views of the global variables of a node agree, whatever has been done with it since it was
made. Its levels have been bound with what its templates see. Under every name a lookup finds nothing
if and only if there is no value; it finds a level if and only if the name is not known otherwise and
this is the first level that defines it, and the value is the one there. And a template sees the value
of a name that is known, and nothing of any other. -/
theorem globals_agree {m : Machine Host} {certname : String} {facts : Facts} {hierarchy : Hierarchy}
    {loader : Loader} {node : Node} {ops : List NodeOperation} (d : Disk) (depth : Nat)
    (key : String)
    (hnode : Node.create m.host.world.files certname facts hierarchy loader = .ok node)
    (hfacts : (Table.keys facts).Nodup) (hops : ∀ o ∈ ops, o.isProper = true) :
    let n := (NodeOperation.runAll d depth ops
      (m.withNode { node with classListKey := key })).host.node
    (∃ files h facts c, Compiled.compile files h facts n.identity.facts = .ok c ∧
      c.outline = n.compiled.outline ∧ n.scope = Compiled.scope c.facts n.identity.facts) ∧
    ∀ name, (n.lookupGlobal name = .missing ↔ n.globalAt? name = none) ∧
      (∀ level, n.lookupGlobal name = .level level ↔
        ¬n.Knows (Name.bare name) ∧ ∃ v, n.compiled.DefinedAt (Name.bare name) level v) ∧
      (∀ level v, n.lookupGlobal name = .level level →
        n.compiled.DefinedAt (Name.bare name) level v → n.globalAt? name = some (v, some level)) ∧
      (Name.bare name ≠ "" → '.' ∉ name.toList → '}' ∉ name.toList →
        Text.trim name.toList = name.toList →
          (n.Knows (Name.bare name) → ∃ v, n.globalAt? name = some (v, none) ∧
            Template.interpolate n.scope ("%\x7b" ++ name ++ "\x7d") = v.display) ∧
          (¬n.Knows (Name.bare name) →
            Template.interpolate n.scope ("%\x7b" ++ name ++ "\x7d") = "")) := by
  intro n
  have hmade : (m.withNode { node with classListKey := key }).host.node.Bound :=
    (Bound.create hnode hfacts).of_outline rfl
  have hn : n.Bound := hmade.runAll hops
  obtain ⟨files, h, facts', c, -, hc, ho⟩ := hn.compiled
  have hsame : c.facts = n.effectiveFacts := congrArg Prod.fst ho
  refine ⟨⟨files, h, facts', c, hc, ho, by rw [scope, hsame]⟩, fun name => ?_⟩
  refine ⟨lookupGlobal_eq_missing_iff, fun level => lookupGlobal_eq_level_iff, ?_,
    interpolate_name hn⟩
  intro level v hlevel hd
  exact globalAt?_of_definedAt (lookupGlobal_eq_level_iff.mp hlevel).1 hd

/-- A node is given a fact, and then two keys are written, one of which is named like the fact. -/
def furnishing : List NodeOperation :=
  [.rebind (.facts [("role", .string "db")]), .assignRaw 0 "port" (.string "http"),
    .assignRaw 0 "role" (.string "web")]

def furnished : Machine Host :=
  NodeOperation.runAll .plain depth furnishing (Machine.unwritten.withNode
    { Fleet.newcomer "n0" with classListKey := standardClassListKey })

theorem furnished_globals_agree :
    (furnished.host.node.lookupGlobal "::port" = .level 0 ∧
      ∃ v, furnished.host.node.globalAt? "::port" = some (v, some 0)) ∧
    (∃ v, furnished.host.node.globalAt? "role" = some (v, none) ∧
      Template.interpolate furnished.host.node.scope ("%\x7b" ++ "role" ++ "\x7d") = v.display) ∧
    Template.interpolate furnished.host.node.scope ("%\x7b" ++ "port" ++ "\x7d") = "" := by
  have hnode : create Machine.unwritten.host.world.files "n0" []
      ⟨5, "data", none, [Fleet.commonLevel]⟩ .shelf = .ok (Fleet.newcomer "n0") := rfl
  have hproper : ∀ o ∈ furnishing, o.isProper = true := by decide
  have hagree := globals_agree (m := Machine.unwritten) .plain depth standardClassListKey hnode
    List.nodup_nil hproper
  have hport : furnished.host.node.lookupGlobal "::port" = .level 0 := by decide +kernel
  have hrole : "role" ∈ Table.keys furnished.host.node.effectiveFacts := by decide +kernel
  -- the node is not to be evaluated again
  unfold furnished at hport hrole ⊢
  generalize NodeOperation.runAll .plain depth furnishing (Machine.unwritten.withNode
    { Fleet.newcomer "n0" with classListKey := standardClassListKey }) = m at hagree hport hrole ⊢
  obtain ⟨-, hviews⟩ := hagree
  obtain ⟨-, hlevel, hvalue, -⟩ := hviews "::port"
  obtain ⟨-, -, -, hknown⟩ := hviews "role"
  obtain ⟨-, -, -, hother⟩ := hviews "port"
  obtain ⟨hunknown, v, hd⟩ := (hlevel 0).mp hport
  have hbare : Name.bare "::port" = Name.bare "port" := by decide
  have hrole' : m.host.node.Knows (Name.bare "role") := .inr (.inr (.inl hrole))
  exact ⟨⟨hport, v, hvalue 0 v hport hd⟩,
    (hknown (by decide) (by decide) (by decide) (by decide)).1 hrole',
    (hother (by decide) (by decide) (by decide) (by decide)).2 (hbare ▸ hunknown)⟩

end Node

end Cascade
