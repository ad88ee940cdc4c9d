import Cascade.Files.Add
import Cascade.Proofs.Components
import Cascade.Proofs.Files
import Cascade.Proofs.Value
/-!
File trees as they are on a disk: every entry has a name that a path can lead through, and no two
have the same place. The files below a directory then have different paths, and making directories adds
none to them.
-/
namespace Cascade

namespace Path

/-- Where a component leads from a place. -/
def Component.lead (place : List String) : Component → List String
  | root => []
  | here => place
  | up => place.dropLast
  | name s => place ++ [s]

end Path

namespace Files

variable {files files' : Files} {path : String}

/-- No two entries have the same place, and every place is made of names. -/
structure WellFormed (files : Files) : Prop where
  distinct : (Table.keys files.entries).Nodup
  named : ∀ place ∈ Table.keys files.entries, ∀ s ∈ place, Path.IsName s
  start : ∀ s ∈ files.workDir, Path.IsName s

theorem ne_empty_of_locate {place : List String} (h : files.locate path = .ok place) :
    path ≠ "" := by
  rintro rfl
  exact absurd h (by simp [locate, locatePieces])

/-- A walk that leads somewhere leads there still when some directories are new. -/
theorem Gains.walk (hg : files.Gains files') {place found pieces : List String}
    (h : files.walk place pieces = .ok found) : files'.walk place pieces = .ok found := by
  induction pieces generalizing place with
  | nil => exact h
  | cons piece rest ih =>
    rw [Files.walk] at h ⊢
    cases hp : files.entry? place with
    | none => simp [hp] at h
    | some entry =>
      have hp' : files'.entry? place = some entry := by
        rcases hg place with he | ⟨hnone, -⟩
        · exact he.trans hp
        · exact absurd (hp.symm.trans hnone) (by simp)
      cases entry with
      | file content t => simp [hp] at h
      | directory t =>
        simp only [hp] at h
        simp only [hp']
        split at h
        · exact ih h
        · split at h
          · exact absurd h (by simp)
          next hlong =>
            rw [if_neg hlong]
            exact ih h
        · exact ih h

theorem Gains.locate (hg : files.Gains files') (hw : files'.workDir = files.workDir)
    {place : List String} (h : files.locate path = .ok place) : files'.locate path = .ok place := by
  unfold Files.locate locatePieces at h ⊢
  split at h
  · exact absurd h (by simp)
  · split at h
    · exact absurd h (by simp)
    next h₁ h₂ =>
      simp only [h₁, h₂, Bool.false_eq_true, ↓reduceIte, hw]
      exact hg.walk h

theorem stat_eq_ok {e : Entry} :
    files.stat path = .ok e ↔
      ∃ place, files.locate path = .ok place ∧ files.entry? place = some e := by
  unfold stat
  rw [bind_eq_ok]
  refine exists_congr fun place => and_congr_right fun _ => ?_
  cases files.entry? place with
  | none => exact ⟨fun h => absurd h nofun, fun h => absurd h nofun⟩
  | some e' =>
    constructor <;> intro h
    · exact congrArg some (Except.ok.inj h)
    · exact congrArg Except.ok (Option.some.inj h)

theorem Gains.stat (hg : files.Gains files') (hw : files'.workDir = files.workDir) {e : Entry}
    (h : files.stat path = .ok e) : files'.stat path = .ok e := by
  obtain ⟨place, hl, he⟩ := stat_eq_ok.mp h
  refine stat_eq_ok.mpr ⟨place, hg.locate hw hl, ?_⟩
  rcases hg place with hsame | ⟨hnone, -⟩
  · exact hsame.trans he
  · exact absurd (he.symm.trans hnone) (by simp)

/-- What an entry adds to the files below a path that leads to `place`. -/
def fileBelow? (path : String) (place : List String) (e : List String × Entry) :
    Option (String × Nat) :=
  match e.2 with
  | .directory _ => none
  | .file _ modified =>
    if place.isPrefixOf e.1 then some ((e.1.drop place.length).foldl Path.join path, modified)
    else none

theorem filesBelow_eq {place : List String} (h : files.locate path = .ok place) :
    files.filesBelow path = files.entries.filterMap (fileBelow? path place) := by
  unfold filesBelow
  rw [h]
  rfl

theorem exists_of_fileBelow? {place target : List String} {e : Entry} {f : String × Nat}
    (h : fileBelow? path place (target, e) = some f) : ∃ names content,
      target = place ++ names ∧ e = .file content f.2 ∧ f.1 = names.foldl Path.join path := by
  cases e with
  | directory t => exact absurd h nofun
  | file content t =>
    simp only [fileBelow?] at h
    split at h
    next hprefix =>
      obtain ⟨names, rfl⟩ := List.isPrefixOf_iff_prefix.mp hprefix
      obtain rfl := Option.some.inj h
      exact ⟨names, content, rfl, rfl, by rw [List.drop_left]⟩
    next => exact absurd h (by simp)

theorem locate_of_mem_filesBelow {f : String × Nat} (h : f ∈ files.filesBelow path) :
    ∃ place, files.locate path = .ok place := by
  cases hl : files.locate path with
  | ok place => exact ⟨place, rfl⟩
  | error e =>
    rw [filesBelow, hl] at h
    exact absurd h List.not_mem_nil

theorem mem_filesBelow {place : List String} (hl : files.locate path = .ok place) {f : String × Nat}
    (h : f ∈ files.filesBelow path) : ∃ names content,
      (place ++ names, .file content f.2) ∈ files.entries ∧ f.1 = names.foldl Path.join path := by
  rw [filesBelow_eq hl] at h
  obtain ⟨⟨target, e⟩, hm, hf⟩ := List.mem_filterMap.mp h
  obtain ⟨names, content, rfl, rfl, hpath⟩ := exists_of_fileBelow? hf
  exact ⟨names, content, hm, hpath⟩

/-- The files below a path have different paths. -/
theorem WellFormed.nodup_filesBelow (hf : files.WellFormed) (path : String) :
    ((files.filesBelow path).map (·.1)).Nodup := by
  cases hl : files.locate path with
  | error e =>
    rw [filesBelow, hl]
    exact List.nodup_nil
  | ok place =>
    rw [filesBelow_eq hl, List.Nodup, List.pairwise_map, List.pairwise_filterMap]
    refine (List.pairwise_map.mp hf.distinct).imp_of_mem fun {a b} ha hb hab f hfa g hgb hsame => ?_
    obtain ⟨names, content, hna, -, hpa⟩ := exists_of_fileBelow? hfa
    obtain ⟨names', content', hnb, -, hpb⟩ := exists_of_fileBelow? hgb
    have hnames : ∀ s ∈ names, Path.IsName s := fun s hs =>
      hf.named _ (List.mem_map_of_mem ha) s (hna ▸ List.mem_append_right place hs)
    have hnames' : ∀ s ∈ names', Path.IsName s := fun s hs =>
      hf.named _ (List.mem_map_of_mem hb) s (hnb ▸ List.mem_append_right place hs)
    obtain rfl := Path.eq_of_components_foldl_join hnames hnames'
      (congrArg Path.components (hpa.symm.trans (hsame.trans hpb)))
    exact hab (hna.trans hnb.symm)

/-- The files below a path are told apart by the components of their paths. -/
theorem WellFormed.eq_of_components (hf : files.WellFormed) {f g : String × Nat}
    (hm : f ∈ files.filesBelow path) (hm' : g ∈ files.filesBelow path)
    (he : Path.components f.1 = Path.components g.1) : f.1 = g.1 := by
  obtain ⟨place, hl⟩ := locate_of_mem_filesBelow hm
  obtain ⟨names, content, hin, hp⟩ := mem_filesBelow hl hm
  obtain ⟨names', content', hin', hp'⟩ := mem_filesBelow hl hm'
  have hnames : ∀ s ∈ names, Path.IsName s := fun s hs =>
    hf.named _ (List.mem_map_of_mem hin) s (List.mem_append_right place hs)
  have hnames' : ∀ s ∈ names', Path.IsName s := fun s hs =>
    hf.named _ (List.mem_map_of_mem hin') s (List.mem_append_right place hs)
  rw [hp, hp'] at he ⊢
  rw [Path.eq_of_components_foldl_join hnames hnames' he]

/-- What changes at a place where no file below a path is or was changes no file below the path. -/
theorem filesBelow_put {place target : List String} {e : Entry} (hne : target ≠ [])
    (hl : files.locate path = .ok place) (hl' : (files.put target e).locate path = .ok place)
    (hold : ∀ old, files.entry? target = some old → fileBelow? path place (target, old) = none)
    (hnew : fileBelow? path place (target, e) = none) :
    (files.put target e).filesBelow path = files.filesBelow path := by
  rw [filesBelow_eq hl, filesBelow_eq hl']
  refine Table.filterMap_set (fun old hget => hold old ?_) hnew
  cases target with
  | nil => exact absurd rfl hne
  | cons s target => exact hget

@[simp] theorem filesBelow_tick (files : Files) (path : String) :
    files.tick.filesBelow path = files.filesBelow path := by
  simp only [filesBelow, locate_tick]
  rfl

/-- What making directories does: it adds directories and nothing else, so that no file is found
below a path that was not there before. -/
structure Sprouts (files files' : Files) : Prop where
  workDir : files'.workDir = files.workDir
  gains : files.Gains files'
  below : ∀ path place, files.locate path = .ok place →
    files'.filesBelow path = files.filesBelow path

namespace Sprouts

theorem refl (files : Files) : files.Sprouts files := ⟨rfl, .refl files, fun _ _ _ => rfl⟩

theorem trans {files'' : Files} (h : files.Sprouts files') (h' : files'.Sprouts files'') :
    files.Sprouts files'' :=
  ⟨h'.workDir.trans h.workDir, h.gains.trans h'.gains, fun path place hl =>
    (h'.below path place (h.gains.locate h.workDir hl)).trans (h.below path place hl)⟩

end Sprouts

theorem sprouts_makeDirectory (h : files.makeDirectory path = .ok files') :
    files.Sprouts files' := by
  have hgains : files.Gains files' := gains_makeDirectory h
  obtain ⟨target, _, h⟩ := bind_eq_ok.mp h
  split at h
  · exact absurd h nofun
  next hnone =>
    obtain rfl := Except.ok.inj h
    refine ⟨rfl, hgains, fun path place hl => ?_⟩
    have hne : target ≠ [] := by
      rintro rfl
      exact absurd hnone (by simp [ entry?])
    have hl' := hgains.locate rfl hl
    rw [locate_tick] at hl'
    rw [filesBelow_tick]
    exact filesBelow_put hne hl hl' (fun old hold => absurd (hold.symm.trans hnone) (by simp)) rfl

theorem sprouts_makeDirectories (h : files.makeDirectories path = .ok files') :
    files.Sprouts files' :=
  makeDirectoriesWithin_induction Sprouts.refl (fun _ _ _ => Sprouts.trans)
    (fun _ _ _ => sprouts_makeDirectory) h

theorem named_of_walk {place found pieces : List String} (hp : ∀ s ∈ place, Path.IsName s)
    (hslash : ∀ piece ∈ pieces, '/' ∉ piece.toList) (h : files.walk place pieces = .ok found) :
    ∀ s ∈ found, Path.IsName s := by
  induction pieces generalizing place with
  | nil => exact Except.ok.inj h ▸ hp
  | cons piece rest ih =>
    have hrest : ∀ piece ∈ rest, '/' ∉ piece.toList := fun p hm =>
      hslash p (List.mem_cons_of_mem piece hm)
    rw [walk] at h
    split at h
    · exact absurd h (by simp)
    · exact absurd h (by simp)
    · split at h
      · exact ih (fun s hs => hp s (List.dropLast_subset place hs)) hrest h
      next s hs =>
        split at h
        · exact absurd h (by simp)
        · refine ih (fun t ht => ?_) hrest h
          rcases List.mem_append.mp ht with ht | ht
          · exact hp t ht
          · obtain rfl := List.mem_singleton.mp ht
            rcases Path.ofPiece?_eq_some hs with he | ⟨-, he⟩
            · obtain rfl := Path.Component.name.inj he
              exact ⟨hslash t List.mem_cons_self, hs⟩
            · exact absurd he (by simp)
      · exact ih hp hrest h

namespace WellFormed

theorem empty {workDir : List String} (h : ∀ s ∈ workDir, Path.IsName s) (clock : Nat) :
    (Files.empty workDir clock).WellFormed :=
  ⟨List.nodup_nil, fun _ hm => absurd hm List.not_mem_nil, h⟩

theorem tick (h : files.WellFormed) : files.tick.WellFormed := ⟨h.distinct, h.named, h.start⟩

theorem locatePieces (h : files.WellFormed) {pieces place : List String}
    (hslash : ∀ piece ∈ pieces, '/' ∉ piece.toList)
    (hl : files.locatePieces path pieces = .ok place) : ∀ s ∈ place, Path.IsName s := by
  unfold Files.locatePieces at hl
  split at hl
  · exact absurd hl (by simp)
  · split at hl
    · exact absurd hl (by simp)
    · refine named_of_walk ?_ hslash hl
      split
      · exact fun s hs => absurd hs List.not_mem_nil
      · exact h.start

theorem put (h : files.WellFormed) {place : List String} (hp : ∀ s ∈ place, Path.IsName s)
    (e : Entry) : (files.put place e).WellFormed := by
  refine ⟨Table.nodup_keys_set h.distinct place e, fun target hm => ?_, h.start⟩
  obtain ⟨entry, hin, rfl⟩ := List.mem_map.mp hm
  rcases Table.mem_of_mem_set hin with rfl | hin
  · exact hp
  · exact h.named _ (List.mem_map_of_mem hin)

/-- What only takes entries away leaves a file tree. -/
theorem of_sublist (h : files.WellFormed) {entries : Table (List String) Entry}
    (hsub : entries.Sublist files.entries) :
    (Files.mk entries files.workDir files.clock).WellFormed :=
  ⟨h.distinct.sublist (hsub.map _), fun place hm => h.named place ((hsub.map _).subset hm), h.start⟩

theorem writeAt (h : files.WellFormed) {content : Content} {t : Nat}
    (hw : files.writeAt path content t = .ok files') : files'.WellFormed := by
  obtain ⟨target, hl, -, rfl⟩ := exists_of_writeAt hw
  exact h.put (h.locatePieces (fun _ hm => Path.slash_notMem_of_mem_pieces hm) hl) _

theorem write (h : files.WellFormed) {content : Content}
    (hw : files.write path content = .ok files') : files'.WellFormed := by
  obtain ⟨written, hwritten, hend⟩ := bind_eq_ok.mp hw
  obtain rfl := Except.ok.inj hend
  exact (h.writeAt hwritten).tick

theorem makeDirectory (h : files.WellFormed) (hm : files.makeDirectory path = .ok files') :
    files'.WellFormed := by
  obtain ⟨target, hl, hm⟩ := bind_eq_ok.mp hm
  split at hm
  · exact absurd hm nofun
  · obtain rfl := Except.ok.inj hm
    refine (h.put (h.locatePieces (fun piece hp => ?_) hl) _).tick
    refine Path.slash_notMem_of_mem_pieces (p := path) (List.mem_reverse.mp ?_)
    exact (List.dropWhile_sublist _).mem (List.mem_reverse.mp hp)

theorem makeDirectories (h : files.WellFormed) (hm : files.makeDirectories path = .ok files') :
    files'.WellFormed :=
  makeDirectoriesWithin_induction (R := fun a b => a.WellFormed → b.WellFormed) (fun _ => id)
    (fun _ _ _ hab hbc => hbc ∘ hab) (fun _ _ _ hm h => h.makeDirectory hm) hm h

theorem removeFile (h : files.WellFormed) (hr : files.removeFile path = .ok files') :
    files'.WellFormed := by
  obtain ⟨target, -, hr⟩ := bind_eq_ok.mp hr
  split at hr
  · exact absurd hr nofun
  · exact absurd hr nofun
  · obtain rfl := Except.ok.inj hr
    refine h.of_sublist ?_
    rw [Table.erase_eq_filter]
    exact List.filter_sublist

theorem removeAll (h : files.WellFormed) (hr : files.removeAll path = .ok files') :
    files'.WellFormed := by
  obtain ⟨target, -, hr⟩ := bind_eq_ok.mp hr
  split at hr
  · exact absurd hr nofun
  · obtain rfl := Except.ok.inj hr
    exact h.of_sublist List.filter_sublist

theorem addDirectory (h : files.WellFormed) (path : String) :
    (files.addDirectory path).WellFormed := by
  unfold Files.addDirectory
  cases hm : files.makeDirectories path with
  | error e => exact h
  | ok made => exact h.makeDirectories hm

theorem addFile (h : files.WellFormed) (path : String) (content : Content) (modified : Option Nat) :
    (files.addFile path content modified).WellFormed := by
  have hparent : ((Path.parent? path).elim files files.addDirectory).WellFormed := by
    cases Path.parent? path with
    | none => exact h
    | some parent => exact h.addDirectory parent
  unfold Files.addFile
  cases modified with
  | none =>
    dsimp only
    cases hw : Files.write ((Path.parent? path).elim files files.addDirectory) path content with
    | error e => exact hparent
    | ok written => exact hparent.write hw
  | some time =>
    dsimp only
    cases hw :
        Files.writeAt ((Path.parent? path).elim files files.addDirectory) path content time with
    | error e => exact hparent
    | ok written => exact hparent.writeAt hw

end WellFormed

end Files
end Cascade
