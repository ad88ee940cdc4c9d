import Cascade.Build.Scan
import Cascade.Proofs.Tree
import Mathlib.Data.List.Pairwise
/-!
What a build is planned from. Every source of a module tree has an artifact of its own, and a plan
leaves out just the sources whose artifact is there and older than no file of the tree.
-/
namespace Cascade.Build

variable {l : Layout} {files files' : Files} {source artifact : String}

theorem mem_sources {root : String} : source ∈ (scan files root).sources ↔
    (∃ t, (source, t) ∈ files.filesBelow root) ∧ isSource source = true := by
  simp [scan, sortPaths, and_comm]

theorem mem_jobsFor {sources : List String} {job : Job} : job ∈ jobsFor l sources ↔
    job.source ∈ sources ∧ l.artifactFor? job.source = some job.artifact := by
  unfold jobsFor
  constructor
  · intro h
    obtain ⟨source, hs, hj⟩ := List.mem_filterMap.mp h
    obtain ⟨artifact, ha, rfl⟩ := Option.map_eq_some_iff.mp hj
    exact ⟨hs, ha⟩
  · rintro ⟨hs, ha⟩
    exact List.mem_filterMap.mpr ⟨job.source, hs, Option.map_eq_some_iff.mpr ⟨_, ha, rfl⟩⟩

/-- What is to be compiled if every artifact is stale. -/
def treeJobs (files : Files) (l : Layout) : List Job := jobsFor l (scan files l.modules).sources

theorem modules_ne_empty {f : String × Nat} (h : f ∈ files.filesBelow l.modules) :
    l.modules ≠ "" := by
  obtain ⟨place, hl⟩ := Files.locate_of_mem_filesBelow h
  exact Files.ne_empty_of_locate hl

/-- The name that ends a source, with its extension. -/
theorem exists_name_of_isSource (h : isSource source = true) : ∃ name,
    Path.fileName? source = some name ∧
      name = (Path.splitExtension name).1 ++ "." ++ sourceExtension := by
  have hext : (Path.fileName? source).bind (fun s => (Path.splitExtension s).2) =
      some sourceExtension := by simpa [isSource, Path.extension?] using h
  obtain ⟨name, hname, hs⟩ := Option.bind_eq_some_iff.mp hext
  exact ⟨name, hname, Path.splitExtension_eq (Prod.ext rfl hs)⟩

theorem components_of_artifactFor? (hm : l.modules ≠ "")
    (h : l.artifactFor? source = some artifact) : ∃ rest,
      Path.components source = Path.components l.modules ++ Path.components rest ∧
        Path.components (Path.join l.cache rest) = Path.components l.cache ++ Path.components rest ∧
          artifact = Path.withExtension artifactExtension (Path.join l.cache rest) := by
  obtain ⟨rest, hrest, rfl⟩ := Option.map_eq_some_iff.mp h
  obtain ⟨hplain, hsource⟩ := Path.components_of_stripBase? hrest (Path.components_ne_nil hm)
  exact ⟨rest, hsource, Path.components_join l.cache hplain, rfl⟩

/-- An artifact lies as deep below the cache as its source below the modules. -/
theorem length_components_artifact (hm : l.modules ≠ "")
    (h : l.artifactFor? source = some artifact) :
    (Path.components artifact).length + (Path.components l.modules).length =
      (Path.components l.cache).length + (Path.components source).length := by
  obtain ⟨rest, hsource, hjoin, rfl⟩ := components_of_artifactFor? hm h
  rw [Path.length_components_withExtension (by decide) (by decide), hjoin, hsource,
    List.length_append, List.length_append]
  omega

/-- The artifact of a source below the modules: the name at its end has another extension. -/
theorem components_artifact (hm : l.modules ≠ "") (hs : isSource source = true)
    (h : l.artifactFor? source = some artifact)
    (hlen : (Path.components l.modules).length < (Path.components source).length) :
    ∃ between stem,
      Path.components source =
        Path.components l.modules ++ between ++ [.name (stem ++ "." ++ sourceExtension)] ∧
      Path.components artifact =
        Path.components l.cache ++ between ++ [.name (stem ++ "." ++ artifactExtension)] := by
  obtain ⟨rest, hsource, hjoin, rfl⟩ := components_of_artifactFor? hm h
  obtain ⟨name, hname, hstem⟩ := exists_name_of_isSource hs
  have hlast := Path.fileName?_eq_some.mp hname
  rcases List.eq_nil_or_concat (Path.components rest) with hnil | ⟨between, c, hrest⟩
  · rw [hsource, hnil, List.append_nil] at hlen
    exact absurd hlen (Nat.lt_irrefl _)
  · rw [List.concat_eq_append] at hrest
    obtain rfl : c = .name name := by
      rw [hsource, hrest] at hlast
      simpa using hlast
    have hfile : Path.fileName? (Path.join l.cache rest) = some name := by
      rw [Path.fileName?_eq_some, hjoin, hrest]
      simp
    refine ⟨between, (Path.splitExtension name).1, ?_, ?_⟩
    · rw [← hstem, hsource, hrest, List.append_assoc]
    · rw [Path.components_withExtension (by decide) (by decide) hfile, hjoin, hrest,
        ← List.append_assoc, List.dropLast_concat]

/-- Sources whose artifacts are at one place are at one place. -/
theorem components_eq_of_components {source' artifact' : String} (hm : l.modules ≠ "")
    (hs : isSource source = true) (hs' : isSource source' = true)
    (h : l.artifactFor? source = some artifact) (h' : l.artifactFor? source' = some artifact')
    (hsame : Path.components artifact = Path.components artifact') :
    Path.components source = Path.components source' := by
  have hlength := length_components_artifact hm h
  have hlength' := length_components_artifact hm h'
  rw [← hsame] at hlength'
  obtain ⟨rest, hsource, -, -⟩ := components_of_artifactFor? hm h
  obtain ⟨rest', hsource', -, -⟩ := components_of_artifactFor? hm h'
  by_cases hlen : (Path.components l.modules).length < (Path.components source).length
  · obtain ⟨between, stem, hs₁, ha₁⟩ := components_artifact hm hs h hlen
    obtain ⟨between', stem', hs₂, ha₂⟩ := components_artifact hm hs' h' (by omega)
    have hartifact := ha₁.symm.trans (hsame.trans ha₂)
    obtain ⟨hbetween, hname⟩ := List.append_inj' hartifact rfl
    obtain rfl := List.append_cancel_left hbetween
    have hstem : stem ++ "." ++ artifactExtension = stem' ++ "." ++ artifactExtension :=
      Path.Component.name.inj (List.singleton_inj.mp hname)
    have hstem' : stem = stem' := by
      rw [← String.toList_inj] at hstem ⊢
      simpa [String.toList_append] using hstem
    rw [hs₁, hs₂, hstem']
  · have hnil : Path.components rest = [] := by
      rw [hsource, List.length_append] at hlen
      exact List.length_eq_zero_iff.mp (by omega)
    have hnil' : Path.components rest' = [] := by
      rw [hsource', List.length_append] at hlength'
      rw [hsource, List.length_append] at hlength hlen
      exact List.length_eq_zero_iff.mp (by omega)
    rw [hsource, hsource', hnil, hnil']

theorem nodup_sources (hf : files.WellFormed) (root : String) :
    (scan files root).sources.Nodup := by
  have hfound := (hf.nodup_filesBelow root).filter isSource
  exact (List.mergeSort_perm _ _).nodup_iff.mpr hfound

/-- No two sources of a module tree have artifacts at the same place. -/
theorem eq_of_artifactFor? {source' artifact' : String} (hf : files.WellFormed)
    (hs : source ∈ (scan files l.modules).sources) (hs' : source' ∈ (scan files l.modules).sources)
    (h : l.artifactFor? source = some artifact) (h' : l.artifactFor? source' = some artifact')
    (hsame : Path.components artifact = Path.components artifact') : source = source' := by
  obtain ⟨⟨t, hm⟩, hsource⟩ := mem_sources.mp hs
  obtain ⟨⟨t', hm'⟩, hsource'⟩ := mem_sources.mp hs'
  exact hf.eq_of_components hm hm'
    (components_eq_of_components (modules_ne_empty hm) hsource hsource' h h' hsame)

theorem nodup_places_treeJobs (hf : files.WellFormed) (l : Layout) :
    ((treeJobs files l).map fun job => Path.components job.artifact).Nodup := by
  have hsources := nodup_sources hf l.modules
  rw [List.Nodup, List.pairwise_map, treeJobs, jobsFor, List.pairwise_filterMap]
  refine List.Pairwise.imp_of_mem (fun {a b} ha hb hne job hj job' hj' hsame => ?_) hsources
  obtain ⟨artifact, h, rfl⟩ := Option.map_eq_some_iff.mp hj
  obtain ⟨artifact', h', rfl⟩ := Option.map_eq_some_iff.mp hj'
  exact hne (eq_of_artifactFor? hf ha hb h h' hsame)

/-- An artifact is there, and no file of the tree is newer. -/
def Fresh (tree : List (String × Nat)) (files : Files) (artifact : String) : Prop :=
  ∃ e, files.stat artifact = .ok e ∧ ∀ f ∈ tree, f.2 ≤ e.modified

theorem Fresh.mono {tree tree' : List (String × Nat)} (hm : ∀ f ∈ tree', f ∈ tree)
    (h : Fresh tree files artifact) : Fresh tree' files artifact := by
  obtain ⟨e, he, hle⟩ := h
  exact ⟨e, he, fun f hf => hle f (hm f hf)⟩

theorem modified?_eq_some {path : String} {t : Nat} : modified? files path = .ok (some t) ↔
    ∃ e, files.stat path = .ok e ∧ e.modified = t := by
  unfold modified?
  constructor
  · intro h
    split at h
    next e he => exact ⟨e, he, Option.some.inj (Except.ok.inj h)⟩
    next => exact absurd (Except.ok.inj h) (by simp)
    next => exact absurd h (by simp)
  · rintro ⟨e, he, rfl⟩
    rw [he]

/-- An artifact is not stale just if no file of the tree is newer. -/
theorem isStale_latest {root : String} {t : Nat} :
    isStale (some t) (scan files root).latest = false ↔ ∀ f ∈ files.filesBelow root, f.2 ≤ t := by
  have hlatest : (scan files root).latest = ((files.filesBelow root).map (·.2)).max? := rfl
  cases hm : (scan files root).latest with
  | none =>
    have hnil : files.filesBelow root = [] := by
      rw [hlatest, List.max?_eq_none_iff] at hm
      exact List.map_eq_nil_iff.mp hm
    simp [isStale, hnil]
  | some latest =>
    rw [hlatest, List.max?_eq_some_iff] at hm
    obtain ⟨hin, hle⟩ := hm
    obtain ⟨newest, hnewest, rfl⟩ := List.mem_map.mp hin
    simp only [isStale, decide_eq_false_iff_not, Nat.not_lt]
    exact ⟨fun h f hf => (hle f.2 (List.mem_map_of_mem hf)).trans h, fun h => h newest hnewest⟩

/-- A check that an artifact passes. -/
theorem fresh_iff {root : String} : Fresh (files.filesBelow root) files' artifact ↔
    ∃ t, modified? files' artifact = .ok (some t) ∧
      isStale (some t) (scan files root).latest = false := by
  constructor
  · rintro ⟨e, he, hle⟩
    exact ⟨e.modified, modified?_eq_some.mpr ⟨e, he, rfl⟩, isStale_latest.mpr hle⟩
  · rintro ⟨t, ht, hs⟩
    obtain ⟨e, he, rfl⟩ := modified?_eq_some.mp ht
    exact ⟨e, he, isStale_latest.mp hs⟩

/-- The files that a tree has are the same in both. -/
def SameTree (l : Layout) (files files' : Files) : Prop :=
  ∀ f, f ∈ files'.filesBelow l.modules ↔ f ∈ files.filesBelow l.modules

theorem SameTree.refl (l : Layout) (files : Files) : SameTree l files files := fun _ => .rfl

end Cascade.Build
