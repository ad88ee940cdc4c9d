import Cascade.Proofs.Hierarchy
/-!
Which levels of a hierarchy are protected. A document says it in options: each level may have some of
its own, and there are some for the levels that name no key themselves. Whatever form a document has,
and however often its templates are filled in, a level has keys if and only if one of the two names a
public key.
-/
namespace Cascade

namespace Hierarchy

/-- Options that name a public key. -/
def NamesKey (options : Option Yaml) : Prop :=
  ∃ entries v name, options = some (.mapping entries) ∧
    (Yaml.mapping entries).get? "pkcs7_public_key" = some v ∧ v.asString? = some name

/-- The options of the levels that one item of a list stands for. -/
def itemOptions (item : Yaml) : List (Option Yaml) :=
  match item with
  | .mapping _ =>
    ((text? item ["path"]).toList ++ textsOf (item.get? "paths")).map fun _ => item.get? "options"
  | _ => [none]

/-- The options of each level of a document. Only version 5 has any. -/
def ownOptions (doc : Yaml) : List (Option Yaml) :=
  match versionOf doc with
  | 5 => match doc.get? "hierarchy" with
    | some (.sequence items) => items.flatMap itemOptions
    | _ => []
  | _ => match doc.get? "hierarchy" with
    | some (.string _) => [none]
    | levels => (textsOf levels).map fun _ => none

/-- The options for levels that name no key themselves. -/
def sharedOptions (doc : Yaml) : Option Yaml :=
  match versionOf doc with
  | 5 => doc.path? ["defaults", "options"]
  | _ => doc.get? "eyaml"

/-- A document that protects its level `n`: the options of the level name a key, or those that are
there for levels that name none. -/
def Protects (text : String) (n : Nat) : Prop :=
  ∃ v own, Yaml.parse text = .ok v ∧ (ownOptions (stripColons v))[n]? = some own ∧
    (NamesKey own ∨ NamesKey (sharedOptions (stripColons v)))

variable {root text : String} {options : Option Yaml} {item doc : Yaml} {h : Hierarchy}
  {levels : List Level} {n : Nat}

theorem isSome_keysOf : (keysOf root options).isSome ↔ NamesKey options := by
  have hpath (options : Yaml) : text? options ["pkcs7_public_key"] =
      (options.get? "pkcs7_public_key").bind Yaml.asString? := by
    rw [text?, Yaml.path?]
    cases options.get? "pkcs7_public_key" <;> rfl
  rw [Option.isSome_iff_exists]
  constructor
  · rintro ⟨keys, hkeys⟩
    obtain ⟨v, rfl, hv⟩ := Option.bind_eq_some_iff.mp hkeys
    obtain ⟨name, hname, -⟩ := Option.map_eq_some_iff.mp hv
    rw [hpath] at hname
    obtain ⟨w, hw, hw'⟩ := Option.bind_eq_some_iff.mp hname
    cases v with
    | mapping entries => exact ⟨entries, w, name, rfl, hw, hw'⟩
    | _ => exact absurd hw nofun
  · rintro ⟨entries, v, name, rfl, hv, hname⟩
    exact ⟨_, by rw [keysOf, Option.bind_some, hpath, hv, Option.bind_some, hname]; rfl⟩

/-- The keys of levels are those that their options name. -/
abbrev Keyed (root : String) (level : Level) (own : Option Yaml) : Prop :=
  level.keys = keysOf root own

theorem keyed_levelsOf (hl : levelsOf root item = .ok levels) :
    List.Forall₂ (Keyed root) levels (itemOptions item) := by
  cases item with
  | string path =>
    obtain rfl := Except.ok.inj hl
    exact .cons rfl .nil
  | mapping entries =>
    obtain rfl := Except.ok.inj hl
    exact List.forall₂_map_left_iff.mpr (List.forall₂_map_right_iff.mpr
      (List.forall₂_same.mpr fun _ _ => rfl))
  | null | bool _ | integer _ | float _ | sequence _ | tagged _ _ => exact absurd hl nofun

theorem keyed_flatten {items : List Yaml} {found : List (List Level)}
    (hf : items.mapM (levelsOf root) = .ok found) :
    List.Forall₂ (Keyed root) found.flatten (items.flatMap itemOptions) := by
  rw [← List.flatMap_id]
  exact List.rel_flatMap (forall₂_of_mapM hf).flip fun _ _ => keyed_levelsOf

theorem keyed_ofVersion5 (hv : versionOf doc = 5) (h5 : ofVersion5 root doc = .ok h) :
    List.Forall₂ (Keyed root) h.levels (ownOptions doc) ∧
      h.keys = keysOf root (sharedOptions doc) := by
  simp only [ownOptions, sharedOptions, hv]
  unfold ofVersion5 at h5
  split at h5
  · rename_i items hitems
    rw [pure_bind] at h5
    obtain ⟨found, hfound, h5⟩ := bind_eq_ok.mp h5
    obtain rfl := Except.ok.inj h5
    rw [hitems]
    exact ⟨keyed_flatten hfound, rfl⟩
  · exact absurd h5 nofun
  · rename_i hnone
    obtain rfl := Except.ok.inj h5
    rw [hnone]
    exact ⟨.nil, rfl⟩

theorem keyed_ofVersion3 (hv : versionOf doc = 3) :
    List.Forall₂ (Keyed root) (ofVersion3 root doc).levels (ownOptions doc) ∧
      (ofVersion3 root doc).keys = keysOf root (sharedOptions doc) := by
  simp only [ownOptions, sharedOptions, hv]
  refine ⟨?_, rfl⟩
  have hmap {level : String → Level} (hnone : ∀ t, (level t).keys = none) (ts : List String) :
      List.Forall₂ (Keyed root) (ts.map level) (ts.map fun _ => none) :=
    List.forall₂_map_left_iff.mpr (List.forall₂_map_right_iff.mpr
      (List.forall₂_same.mpr fun t _ => hnone t))
  unfold ofVersion3
  dsimp only
  match doc.get? "hierarchy" with
  | some (.string single) => exact hmap (fun _ => rfl) [single]
  | none | some .null | some (.bool _) | some (.integer _) | some (.float _)
  | some (.sequence _) | some (.mapping _) | some (.tagged ..) => exact hmap (fun _ => rfl) _

theorem keyed_of_parse (hp : parse text root = .ok h) : ∃ v, Yaml.parse text = .ok v ∧
    List.Forall₂ (Keyed root) h.levels (ownOptions (stripColons v)) ∧
      h.keys = keysOf root (sharedOptions (stripColons v)) := by
  unfold parse at hp
  split at hp
  · exact absurd hp nofun
  rename_i v hv
  split at hp
  · exact absurd hp nofun
  rename_i h' hof
  obtain rfl := Except.ok.inj hp
  refine ⟨v, hv, ?_⟩
  unfold ofYaml at hof
  split at hof
  · rename_i entries hentries
    rw [hentries]
    split at hof
    · rename_i hversion
      obtain rfl := Except.ok.inj hof
      exact keyed_ofVersion3 hversion
    · rename_i hversion
      exact keyed_ofVersion5 hversion hof
    · exact absurd hof nofun
  · exact absurd hof nofun

end Hierarchy

namespace Compiled

open Hierarchy (Keyed NamesKey Protects isSome_keysOf keysOf keyed_of_parse)

variable {text root : String} {files : Files} {h : Hierarchy} {facts trusted : Facts} {c : Compiled}

/-- The keys of a level are those that its own options name, or else the shared ones. -/
theorem isSome_keys {level : Level} {l : CompiledLevel} {own shared : Option Yaml}
    (hl : bindLevel files h facts trusted level = .ok l) (hown : Keyed root level own)
    (hshared : h.keys = keysOf root shared) :
    l.keys.isSome ↔ NamesKey own ∨ NamesKey shared := by
  obtain ⟨file, -, rfl⟩ := bindLevel_eq_ok.mp hl
  have hkeys : (level.keys <|> h.keys).isSome ↔ level.keys.isSome ∨ h.keys.isSome := by simp
  rw [hkeys, hown, hshared, isSome_keysOf, isSome_keysOf]

/-- A level of a hierarchy has keys if and only if its document protects it. -/
theorem keys_iff_protects (hp : Hierarchy.parse text root = .ok h)
    (hc : compile files h facts trusted = .ok c) {n : Nat} :
    (∃ l, c.levels[n]? = some l ∧ l.keys.isSome) ↔ Protects text n := by
  obtain ⟨v, hv, hlevels, hshared⟩ := keyed_of_parse hp
  have hbound := forall₂_of_mapM (bindLevels_of_compile hc)
  constructor
  · rintro ⟨l, hl, hkeys⟩
    obtain ⟨level, hlevel, hb⟩ := exists_of_forall₂ hbound.flip hl
    obtain ⟨own, hown, hkeyed⟩ := exists_of_forall₂ hlevels hlevel
    exact ⟨v, own, hv, hown, (isSome_keys hb hkeyed hshared).mp hkeys⟩
  · rintro ⟨v', own, hv', hown, hnames⟩
    obtain rfl := Except.ok.inj (hv.symm.trans hv')
    obtain ⟨level, hlevel, hkeyed⟩ := exists_of_forall₂ hlevels.flip hown
    obtain ⟨l, hl, hb⟩ := exists_of_forall₂ hbound hlevel
    exact ⟨l, hl, (isSome_keys hb hkeyed hshared).mpr hnames⟩

end Compiled

end Cascade
