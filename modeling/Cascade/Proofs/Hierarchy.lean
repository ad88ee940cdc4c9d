import Cascade.Hierarchy.Compiled
import Cascade.Proofs.DataFile
import Cascade.Proofs.Files
import Mathlib.Data.List.Nodup
/-!
What a change of one level leaves behind: the copy that the level keeps, and the file at its path.
-/
namespace Cascade

namespace DataFile

variable {files files' : Files} {path text : String} {f : DataFile}

theorem path_of_parse (h : parse path text = .ok f) : f.path = path := by
  unfold parse at h
  split at h
  · exact absurd h (by simp)
  · split at h
    · exact absurd h (by simp)
    · rw [← Except.ok.inj h]

theorem exists_parse_of_open (h : DataFile.open files path = .ok (some f)) :
    ∃ text, parse path text = .ok f := by
  unfold DataFile.open at h
  split at h
  · exact absurd h (by simp)
  · exact absurd h (by simp)
  next text _ =>
    cases hp : parse path text with
    | error e => simp [hp, Except.map] at h
    | ok g =>
      obtain rfl : g = f := by simpa [hp, Except.map] using h
      exact ⟨text, hp⟩

theorem path_of_open (h : DataFile.open files path = .ok (some f)) : f.path = path := by
  obtain ⟨text, ht⟩ := exists_parse_of_open h
  exact path_of_parse ht

theorem open_congr (h : files'.readOptional path = files.readOptional path) :
    DataFile.open files' path = DataFile.open files path := by
  rw [DataFile.open, h]
  rfl

/-- A saved file is a written one, below directories that are there or have been made. -/
theorem exists_of_save (h : f.save files = .ok files') :
    ∃ made, makeParent files f.path = .ok made ∧ made.write f.path (.text f.text) = .ok files' := by
  obtain ⟨made, hm, h⟩ := bind_eq_ok.mp h
  split at h
  · exact absurd h nofun
  next hw => exact ⟨made, hm, Except.ok.inj h ▸ hw⟩

theorem open_of_readText (h : files.readText path = .ok text) :
    DataFile.open files path = (parse path text).map some := by
  simp [DataFile.open, Files.readOptional, h]

/-- A file that has been saved is what its text says. -/
theorem open_of_save (h : f.save files = .ok files') :
    DataFile.open files' f.path = (parse f.path f.text).map some := by
  obtain ⟨made, -, hw⟩ := exists_of_save h
  exact open_of_readText (Files.readText_of_write hw)

/-- A file that is saved under the header that was read before is read as it is if and only if it keeps
its header. -/
theorem open_of_save_iff {old : Option DataFile} (ho : DataFile.open files path = .ok old)
    (hp : f.path = path) (hh : f.header = (old.map (·.header)).getD "") (hd : f.isData = true)
    (hr : f.ReadsBack) (h : f.save files = .ok files') :
    DataFile.open files' path = .ok (some f) ↔ f.keepsHeader := by
  obtain ⟨text, htext⟩ : ∃ text, f.header = headerOf text := by
    cases old with
    | none => exact ⟨"", hh⟩
    | some g =>
      obtain ⟨text, ht⟩ := exists_parse_of_open ho
      exact ⟨text, hh.trans (header_of_parse ht)⟩
  rw [← hp, open_of_save h, parse_of_readsBack hr hd, ← headerOf_text_iff htext]
  constructor
  · intro he
    exact congrArg DataFile.header (Option.some.inj (Except.ok.inj he))
  · intro he
    rw [he]
    rfl

@[simp] theorem get?_set (f : DataFile) (key : String) (v : Value) :
    (f.set key v).get? key = some v := by
  simp [get?, set]

@[simp] theorem get?_erase (f : DataFile) (key : String) : (f.erase key).get? key = none := by
  simp [get?, erase]

/-- The facts that the header of a file sets, if it is there. -/
def factsIn (copy : Option DataFile) : Facts := copy.elim [] factOverrides

/-- A copy of the file at a path is either as it was read or as it has just been written. -/
inductive Kept (path : String) (files : Files) : Option DataFile → Files → Prop
  | read {copy : Option DataFile} (h : DataFile.open files path = .ok copy) :
      Kept path files copy files
  | written {f : DataFile} {old : Option DataFile} {files' : Files} (hp : f.path = path)
      (hold : DataFile.open files path = .ok old) (hfacts : factsIn (some f) = factsIn old)
      (h : f.save files = .ok files') : Kept path files (some f) files'

/-- A file that is read as it was written says what is kept of it, and sets the facts that it has
always set. -/
theorem Kept.open {copy : Option DataFile} (h : Kept path files copy files')
    (hr : ∀ f, copy = some f → parse f.path f.text = .ok f) :
    DataFile.open files' path = .ok copy ∧
      ∃ old, DataFile.open files path = .ok old ∧ factsIn copy = factsIn old := by
  cases h with
  | read h => exact ⟨h, copy, h, rfl⟩
  | written hp hold hfacts h =>
    refine ⟨?_, _, hold, hfacts⟩
    rw [← hp, open_of_save h, hr _ rfl]
    rfl

end DataFile

namespace CompiledLevel

variable {l l' : CompiledLevel} {files files' : Files} {key : String} {v : Value}

theorem set_outcome (h : l.set files key v = .ok (l', files')) :
    ∃ old, DataFile.open files l.path = .ok old ∧
      l' = { l with file := some ((old.getD (.empty l.path)).set key v) } ∧
        ((old.getD (.empty l.path)).set key v).save files = .ok files' := by
  obtain ⟨old, ho, h⟩ := bind_eq_ok.mp h
  obtain ⟨saved, hs, h⟩ := bind_eq_ok.mp h
  obtain ⟨rfl, rfl⟩ := Prod.mk.inj (Except.ok.inj h)
  exact ⟨old, ho, rfl, hs⟩

theorem erase_outcome {removed : Option Value} (h : l.erase files key = .ok (removed, l', files')) :
    ∃ old, DataFile.open files l.path = .ok old ∧ removed = old.bind (·.get? key) ∧
      (removed = none ∧ l' = { l with file := old } ∧ files' = files ∨
        ∃ f, old = some f ∧ removed.isSome ∧ l' = { l with file := some (f.erase key) } ∧
          (f.erase key).save files = .ok files') := by
  obtain ⟨old, ho, h⟩ := bind_eq_ok.mp h
  refine ⟨old, ho, ?_⟩
  cases old with
  | none =>
    obtain ⟨rfl, hrest⟩ := Prod.mk.inj (Except.ok.inj h)
    obtain ⟨rfl, rfl⟩ := Prod.mk.inj hrest
    exact ⟨rfl, .inl ⟨rfl, rfl, rfl⟩⟩
  | some f =>
    cases hg : f.get? key with
    | none =>
      simp only [hg] at h
      obtain ⟨rfl, hrest⟩ := Prod.mk.inj (Except.ok.inj h)
      obtain ⟨rfl, rfl⟩ := Prod.mk.inj hrest
      exact ⟨hg.symm, .inl ⟨rfl, rfl, rfl⟩⟩
    | some w =>
      simp only [hg] at h
      obtain ⟨saved, hs, h⟩ := bind_eq_ok.mp h
      obtain ⟨rfl, hrest⟩ := Prod.mk.inj (Except.ok.inj h)
      obtain ⟨rfl, rfl⟩ := Prod.mk.inj hrest
      exact ⟨hg.symm, .inr ⟨f, rfl, rfl, rfl, hs⟩⟩

theorem exists_of_set (h : l.set files key v = .ok (l', files')) :
    ∃ f, l' = { l with file := some f } ∧ f.get? key = some v ∧
      DataFile.Kept l.path files (some f) files' := by
  obtain ⟨old, ho, rfl, hs⟩ := set_outcome h
  refine ⟨_, rfl, DataFile.get?_set _ key v, .written ?_ ho ?_ hs⟩
  · cases old with
    | none => rfl
    | some f =>
      have hp : f.path = l.path := DataFile.path_of_open ho
      exact hp
  · cases old <;> rfl

theorem exists_of_erase {removed : Option Value}
    (h : l.erase files key = .ok (removed, l', files')) :
    ∃ copy, l' = { l with file := copy } ∧ copy.bind (·.get? key) = none ∧
      DataFile.Kept l.path files copy files' := by
  obtain ⟨old, ho, hv, ⟨hnone, rfl, rfl⟩ | ⟨f, rfl, -, rfl, hs⟩⟩ := erase_outcome h
  · exact ⟨old, rfl, hv.symm.trans hnone, .read ho⟩
  · have hp : f.path = l.path := DataFile.path_of_open ho
    exact ⟨_, rfl, DataFile.get?_erase f key, .written hp ho rfl hs⟩

end CompiledLevel

namespace Compiled

variable {c c' : Compiled} {l : CompiledLevel} {files files' : Files} {n : Nat} {key : String}
variable {v : Value}

theorem level_eq_ok (h : c.levels[n]? = some l) : c.level n = .ok l := by
  simp [level, h]

theorem exists_set_of_assignRaw (hl : c.levels[n]? = some l)
    (h : c.assignRaw files n key v = .ok (c', files')) :
    ∃ l', l.set files key v = .ok (l', files') ∧ c' = c.putLevel n l' := by
  obtain ⟨l₀, hl₀, h⟩ := bind_eq_ok.mp h
  obtain rfl := Except.ok.inj ((level_eq_ok hl).symm.trans hl₀)
  obtain ⟨⟨l', saved⟩, hs, h⟩ := bind_eq_ok.mp h
  obtain ⟨rfl, rfl⟩ := Prod.mk.inj (Except.ok.inj h)
  exact ⟨l', hs, rfl⟩

theorem exists_of_assignRaw (hl : c.levels[n]? = some l)
    (h : c.assignRaw files n key v = .ok (c', files')) :
    ∃ f, c' = c.putLevel n { l with file := some f } ∧ f.get? key = some v ∧
      DataFile.Kept l.path files (some f) files' := by
  obtain ⟨l', hs, rfl⟩ := exists_set_of_assignRaw hl h
  obtain ⟨f, rfl, hf, hk⟩ := CompiledLevel.exists_of_set hs
  exact ⟨f, rfl, hf, hk⟩

theorem exists_erase_of_erase {removed : Option Value} (hl : c.levels[n]? = some l)
    (h : c.erase files n key = .ok (removed, c', files')) :
    ∃ l', l.erase files key = .ok (removed, l', files') ∧ c' = c.putLevel n l' := by
  obtain ⟨l₀, hl₀, h⟩ := bind_eq_ok.mp h
  obtain rfl := Except.ok.inj ((level_eq_ok hl).symm.trans hl₀)
  obtain ⟨⟨w, l', saved⟩, he, h⟩ := bind_eq_ok.mp h
  obtain ⟨rfl, hrest⟩ := Prod.mk.inj (Except.ok.inj h)
  obtain ⟨rfl, rfl⟩ := Prod.mk.inj hrest
  exact ⟨l', he, rfl⟩

theorem exists_of_erase (hl : c.levels[n]? = some l) {removed : Option Value}
    (h : c.erase files n key = .ok (removed, c', files')) :
    ∃ copy, c' = c.putLevel n { l with file := copy } ∧ copy.bind (·.get? key) = none ∧
      DataFile.Kept l.path files copy files' := by
  obtain ⟨l', he, rfl⟩ := exists_erase_of_erase hl h
  obtain ⟨copy, rfl, hf, hk⟩ := CompiledLevel.exists_of_erase he
  exact ⟨copy, rfl, hf, hk⟩

theorem getElem?_of_level (h : c.level n = .ok l) : c.levels[n]? = some l := by
  unfold level at h
  split at h
  next l' hl =>
    obtain rfl := Except.ok.inj h
    exact hl
  · exact absurd h (by simp)

theorem exists_level_of_erase {removed : Option Value}
    (h : c.erase files n key = .ok (removed, c', files')) : ∃ l, c.levels[n]? = some l := by
  obtain ⟨l, hl, -⟩ := bind_eq_ok.mp h
  exact ⟨l, getElem?_of_level hl⟩

/-- What a level stores of a value. -/
theorem exists_assignRaw_of_assign {entropy entropy' : Entropy}
    (h : c.assign files entropy n key v = .ok (c', files', entropy')) :
    ∃ l stored, c.levels[n]? = some l ∧ storedForm files l v entropy = .ok (stored, entropy') ∧
      c.assignRaw files n key stored = .ok (c', files') := by
  obtain ⟨l, hl, h⟩ := bind_eq_ok.mp h
  obtain ⟨⟨stored, entropy₀⟩, hs, h⟩ := bind_eq_ok.mp h
  obtain ⟨⟨c₀, files₀⟩, ha, h⟩ := bind_eq_ok.mp h
  obtain ⟨rfl, hrest⟩ := Prod.mk.inj (Except.ok.inj h)
  obtain ⟨rfl, rfl⟩ := Prod.mk.inj hrest
  exact ⟨l, stored, getElem?_of_level hl, hs, ha⟩

theorem exists_of_assign {entropy entropy' : Entropy}
    (h : c.assign files entropy n key v = .ok (c', files', entropy')) :
    ∃ l copy, c.levels[n]? = some l ∧ c' = c.putLevel n { l with file := copy } ∧
      DataFile.Kept l.path files copy files' := by
  obtain ⟨l, stored, hl, -, ha⟩ := exists_assignRaw_of_assign h
  obtain ⟨f, rfl, -, hk⟩ := exists_of_assignRaw hl ha
  exact ⟨l, some f, hl, rfl, hk⟩

end Compiled

theorem mapM_cons_eq_ok {α β ε : Type} {f : α → Except ε β} {a : α} {as : List α} {bs : List β} :
    (a :: as).mapM f = .ok bs ↔ ∃ b bs', f a = .ok b ∧ as.mapM f = .ok bs' ∧ bs = b :: bs' := by
  rw [List.mapM_cons, bind_eq_ok]
  constructor
  · rintro ⟨b, ha, h⟩
    obtain ⟨bs', has, h⟩ := bind_eq_ok.mp h
    exact ⟨b, bs', ha, has, (Except.ok.inj h).symm⟩
  · rintro ⟨b, bs', ha, has, rfl⟩
    exact ⟨b, ha, bind_eq_ok.mpr ⟨bs', has, rfl⟩⟩

theorem mapM_ok_map {α β ε : Type} {f g : α → Except ε β} {k : β → β} {as : List α} {bs : List β}
    (h : as.mapM f = .ok bs) (hfg : ∀ a ∈ as, ∀ b, f a = .ok b → g a = .ok (k b)) :
    as.mapM g = .ok (bs.map k) := by
  induction as generalizing bs with
  | nil =>
    obtain rfl : [] = bs := Except.ok.inj h
    rfl
  | cons a as ih =>
    obtain ⟨b, bs', ha, has, rfl⟩ := mapM_cons_eq_ok.mp h
    have hrest := ih has fun a' ha' => hfg a' (List.mem_cons_of_mem _ ha')
    exact mapM_cons_eq_ok.mpr ⟨k b, bs'.map k, hfg a List.mem_cons_self b ha, hrest, rfl⟩

theorem forall₂_of_mapM {α β ε : Type} {f : α → Except ε β} {as : List α} {bs : List β}
    (h : as.mapM f = .ok bs) : List.Forall₂ (fun a b => f a = .ok b) as bs := by
  induction as generalizing bs with
  | nil =>
    obtain rfl : [] = bs := Except.ok.inj h
    exact .nil
  | cons a as ih =>
    obtain ⟨b, bs', ha, has, rfl⟩ := mapM_cons_eq_ok.mp h
    exact .cons ha (ih has)

theorem exists_of_forall₂ {α β : Type} {R : α → β → Prop} {as : List α} {bs : List β} {n : Nat}
    {a : α} (h : List.Forall₂ R as bs) (ha : as[n]? = some a) : ∃ b, bs[n]? = some b ∧ R a b := by
  induction h generalizing n with
  | nil => exact absurd ha (by simp)
  | cons hab _ ih =>
    cases n with
    | zero =>
      obtain rfl := Option.some.inj ha
      exact ⟨_, rfl, hab⟩
    | succ n => exact ih ha

theorem exists_of_mapM_getElem? {α β ε : Type} {f : α → Except ε β} {as : List α} {bs : List β}
    {n : Nat} {b : β} (h : as.mapM f = .ok bs) (hb : bs[n]? = some b) :
    ∃ a, as[n]? = some a ∧ f a = .ok b :=
  exists_of_forall₂ (forall₂_of_mapM h).flip hb

theorem exists_of_mem_mapM {α β ε : Type} {f : α → Except ε β} {as : List α} {bs : List β} {b : β}
    (h : as.mapM f = .ok bs) (hb : b ∈ bs) : ∃ a ∈ as, f a = .ok b := by
  obtain ⟨n, hn⟩ := List.mem_iff_getElem?.mp hb
  obtain ⟨a, ha, hf⟩ := exists_of_mapM_getElem? h hn
  exact ⟨a, List.mem_of_getElem? ha, hf⟩

theorem exists_mem_of_mapM {α β ε : Type} {f : α → Except ε β} {as : List α} {bs : List β} {a : α}
    (h : as.mapM f = .ok bs) (ha : a ∈ as) : ∃ b ∈ bs, f a = .ok b := by
  obtain ⟨n, hn⟩ := List.mem_iff_getElem?.mp ha
  obtain ⟨b, hb, hf⟩ := exists_of_forall₂ (forall₂_of_mapM h) hn
  exact ⟨b, List.mem_of_getElem? hb, hf⟩

/-- An item gives way to one that looks the same under `f`. -/
theorem map_set_eq_self {α β : Type} {f : α → β} {as : List α} {n : Nat} {a : α}
    (h : (as.map f)[n]? = some (f a)) : (as.set n a).map f = as.map f := by
  obtain ⟨hlt, hget⟩ := List.getElem?_eq_some_iff.mp h
  rw [List.map_set, ← hget, List.set_getElem_self]

/-- What holds of every item of a list and the items before it. -/
theorem of_zipIdx {α : Type} {as : List α} {P : List α → α → Bool}
    (h : as.zipIdx.all (fun e => P (as.take e.2) e.1) = true) {pre : List α} {a : α}
    (hp : pre ++ [a] <+: as) : P pre a = true := by
  obtain ⟨post, rfl⟩ := hp
  have hin : (a, pre.length) ∈ (pre ++ [a] ++ post).zipIdx := by
    rw [List.mem_zipIdx_iff_getElem?]
    simp
  have hall := List.all_eq_true.mp h _ hin
  rwa [List.append_assoc, List.take_left] at hall

/-- A level with another copy of its file, if it reads the one at this path. -/
def CompiledLevel.refreshed (path : String) (copy : Option DataFile) (l : CompiledLevel) :
    CompiledLevel :=
  if l.path = path then { l with file := copy } else l

namespace Compiled

variable {files files' : Files} {h : Hierarchy} {facts trusted : Facts} {level : Level}
  {l : CompiledLevel} {levels : List CompiledLevel} {c : Compiled} {path : String}
  {copy old : Option DataFile}

theorem bindLevel_eq_ok : bindLevel files h facts trusted level = .ok l ↔
    ∃ file, DataFile.open files (pathOf h level facts trusted) = .ok file ∧
      l = ⟨level, pathOf h level facts trusted, level.keys <|> h.keys, file⟩ := by
  refine bind_eq_ok.trans (exists_congr fun file => and_congr_right fun _ => ?_)
  exact ⟨fun hl => (Except.ok.inj hl).symm, fun hl => hl ▸ rfl⟩

theorem open_of_bindLevel (hb : bindLevel files h facts trusted level = .ok l) :
    DataFile.open files l.path = .ok l.file := by
  obtain ⟨file, ho, rfl⟩ := bindLevel_eq_ok.mp hb
  exact ho

theorem open_of_bindLevels (hl : bindLevels files h facts trusted = .ok levels) (hm : l ∈ levels) :
    DataFile.open files l.path = .ok l.file := by
  obtain ⟨level, -, hb⟩ := exists_of_mem_mapM hl hm
  exact open_of_bindLevel hb

theorem headerFacts_eq (levels : List CompiledLevel) : headerFacts levels =
    levels.reverse.foldl (fun facts l => Table.merge facts (DataFile.factsIn l.file)) [] := by
  unfold headerFacts
  congr 1
  funext facts l
  cases l.file <;> rfl

theorem headerFacts_map {k : CompiledLevel → CompiledLevel}
    (hk : ∀ l ∈ levels, DataFile.factsIn (k l).file = DataFile.factsIn l.file) :
    headerFacts (levels.map k) = headerFacts levels := by
  rw [headerFacts_eq, headerFacts_eq, ← List.map_reverse, List.foldl_map]
  refine List.foldl_ext _ _ _ fun facts l hl => ?_
  rw [hk l (List.mem_reverse.mp hl)]

/-- A hierarchy is bound once more with the facts that the headers set, if they set any. -/
theorem compile_eq_ok : compile files h facts trusted = .ok c ↔
    ∃ levels, bindLevels files h facts trusted = .ok levels ∧
      (headerFacts levels = [] ∧ c = ⟨levels, facts⟩ ∨
        headerFacts levels ≠ [] ∧ c.facts = Table.merge facts (headerFacts levels) ∧
          bindLevels files h c.facts trusted = .ok c.levels) := by
  refine bind_eq_ok.trans (exists_congr fun levels => and_congr_right fun _ => ?_)
  cases ho : headerFacts levels with
  | nil =>
    refine ⟨fun hc => .inl ⟨rfl, (Except.ok.inj hc).symm⟩, ?_⟩
    rintro (⟨-, rfl⟩ | ⟨hne, -⟩)
    · rfl
    · exact absurd rfl hne
  | cons e es =>
    refine bind_eq_ok.trans ⟨?_, ?_⟩
    · rintro ⟨levels', hl, hc⟩
      obtain rfl := Except.ok.inj hc
      exact .inr ⟨by simp, rfl, hl⟩
    · rintro (⟨hnil, -⟩ | ⟨-, hfacts, hl⟩)
      · exact absurd hnil (by simp)
      · obtain ⟨levels', facts'⟩ := c
        obtain rfl : facts' = _ := hfacts
        exact ⟨levels', hl, rfl⟩

theorem bindLevels_of_compile (hc : compile files h facts trusted = .ok c) :
    bindLevels files h c.facts trusted = .ok c.levels := by
  obtain ⟨levels, hl, ⟨-, rfl⟩ | ⟨-, -, hl'⟩⟩ := compile_eq_ok.mp hc
  · exact hl
  · exact hl'

/-- All that a hierarchy makes of a file tree is what it reads from it. -/
theorem compile_map {k : CompiledLevel → CompiledLevel}
    (hc : compile files h facts trusted = .ok c)
    (hread : ∀ level ∈ h.levels, ∀ facts' ∈ [facts, c.facts], ∀ l,
      bindLevel files h facts' trusted level = .ok l →
        bindLevel files' h facts' trusted level = .ok (k l))
    (hfacts : ∀ level ∈ h.levels, ∀ l, bindLevel files h facts trusted level = .ok l →
      DataFile.factsIn (k l).file = DataFile.factsIn l.file) :
    compile files' h facts trusted = .ok ⟨c.levels.map k, c.facts⟩ := by
  have hbind : ∀ facts' ∈ [facts, c.facts], ∀ levels,
      bindLevels files h facts' trusted = .ok levels →
        bindLevels files' h facts' trusted = .ok (levels.map k) := fun facts' hf levels hl =>
    mapM_ok_map hl fun level hm l hb => hread level hm facts' hf l hb
  obtain ⟨levels, hl, hrest⟩ := compile_eq_ok.mp hc
  have hsame : headerFacts (levels.map k) = headerFacts levels :=
    headerFacts_map fun l hm => by
      obtain ⟨level, hlevel, hb⟩ := exists_of_mem_mapM hl hm
      exact hfacts level hlevel l hb
  refine compile_eq_ok.mpr ⟨levels.map k, hbind facts (by simp) levels hl, ?_⟩
  rw [hsame]
  rcases hrest with ⟨hnil, rfl⟩ | ⟨hne, hfacts', hl'⟩
  · exact .inl ⟨hnil, rfl⟩
  · exact .inr ⟨hne, hfacts', hbind c.facts (by simp) c.levels hl'⟩

theorem compile_congr (hc : compile files h facts trusted = .ok c)
    (hsame : ∀ level ∈ h.levels, ∀ facts' ∈ [facts, c.facts],
      DataFile.open files' (pathOf h level facts' trusted) =
        DataFile.open files (pathOf h level facts' trusted)) :
    compile files' h facts trusted = .ok c := by
  have hread : compile files' h facts trusted = .ok ⟨c.levels.map id, c.facts⟩ := by
    refine compile_map hc (fun level hm facts' hf l hb => ?_) fun _ _ _ _ => rfl
    obtain ⟨file, ho, rfl⟩ := bindLevel_eq_ok.mp hb
    exact bindLevel_eq_ok.mpr ⟨file, (hsame level hm facts' hf).trans ho, rfl⟩
  simpa using hread

/-- The hierarchy bound anew after the file at one path has changed, but not its header. -/
theorem compile_refreshed (hc : compile files h facts trusted = .ok c)
    (hother : ∀ level ∈ h.levels, ∀ facts' ∈ [facts, c.facts],
      pathOf h level facts' trusted ≠ path → DataFile.open files' (pathOf h level facts' trusted) =
        DataFile.open files (pathOf h level facts' trusted))
    (hold : DataFile.open files path = .ok old) (hcopy : DataFile.open files' path = .ok copy)
    (hfacts : DataFile.factsIn copy = DataFile.factsIn old) :
    compile files' h facts trusted =
      .ok ⟨c.levels.map (CompiledLevel.refreshed path copy), c.facts⟩ := by
  refine compile_map hc ?_ ?_
  · intro level hm facts' hf l hb
    obtain ⟨file, ho, rfl⟩ := bindLevel_eq_ok.mp hb
    unfold CompiledLevel.refreshed
    split
    next hp =>
      dsimp only at hp
      exact bindLevel_eq_ok.mpr ⟨copy, by rw [hp, hcopy], by dsimp only⟩
    next hp =>
      dsimp only at hp
      exact bindLevel_eq_ok.mpr ⟨file, (hother level hm facts' hf hp).trans ho, by dsimp only⟩
  · intro level _ l hb
    have ho := open_of_bindLevel hb
    unfold CompiledLevel.refreshed
    split
    next hp =>
      obtain rfl : old = l.file := Except.ok.inj ((hp ▸ hold).symm.trans ho)
      exact hfacts
    next => rfl

/-- A level that alone reads its file is the only one that gets the new copy. -/
theorem putLevel_eq (hn : (c.levels.map (·.path)).Nodup) {n : Nat} (hl : c.levels[n]? = some l) :
    c.putLevel n { l with file := copy } =
      ⟨c.levels.map (CompiledLevel.refreshed l.path copy), c.facts⟩ := by
  refine congrArg (Compiled.mk · c.facts) (List.ext_getElem? fun i => ?_)
  obtain ⟨hlt, rfl⟩ := List.getElem?_eq_some_iff.mp hl
  rw [List.getElem?_set, List.getElem?_map]
  split
  next he =>
    subst he
    simp [hlt, CompiledLevel.refreshed]
  next hne =>
    cases hi : c.levels[i]? with
    | none => rfl
    | some l' =>
      obtain ⟨hlt', rfl⟩ := List.getElem?_eq_some_iff.mp hi
      have hpath : c.levels[i].path ≠ c.levels[n].path := by
        intro he
        have hsame := List.inj_on_of_nodup_map hn (List.getElem_mem hlt') (List.getElem_mem hlt) he
        exact hne ((hn.of_map _).getElem_inj_iff.mp hsame).symm
      simp [CompiledLevel.refreshed, hpath]

@[simp] theorem paths_putLevel {n : Nat} (hl : c.levels[n]? = some l) :
    (c.putLevel n { l with file := copy }).levels.map (·.path) = c.levels.map (·.path) := by
  refine map_set_eq_self (f := CompiledLevel.path) ?_
  rw [List.getElem?_map, hl]
  rfl

section Lookup

variable {key : String} {v : Value} {n : Nat}

theorem lookupFrom_eq_nil {ls : List CompiledLevel} (h : ∀ l ∈ ls, l.get? key = none) (n : Nat) :
    lookupFrom key n ls = [] := by
  induction ls generalizing n with
  | nil => rfl
  | cons l ls ih =>
    rw [lookupFrom, h l List.mem_cons_self]
    exact ih (fun l hl => h l (List.mem_cons_of_mem _ hl)) (n + 1)

theorem head?_lookupFrom {ls : List CompiledLevel} {k : Nat} (hl : ls[k]? = some l)
    (hv : l.get? key = some v) (hbefore : ∀ j < k, ∀ l', ls[j]? = some l' → l'.get? key = none)
    (n : Nat) : (lookupFrom key n ls).head? = some (v, n + k) := by
  induction ls generalizing k n with
  | nil => simp at hl
  | cons l' ls ih =>
    cases k with
    | zero =>
      obtain rfl : l' = l := by simpa using hl
      simp [lookupFrom, hv]
    | succ k =>
      rw [lookupFrom, hbefore 0 (Nat.succ_pos k) l' rfl]
      simp only
      rw [ih (by simpa using hl) fun j hj l' hl' => hbefore (j + 1) (by omega) l' (by simpa using hl')]
      congr 2
      omega

/-- The first level that has a key decides. -/
theorem lookup_eq_some (hl : c.levels[n]? = some l) (hv : l.get? key = some v)
    (hbefore : ∀ j < n, ∀ l', c.levels[j]? = some l' → l'.get? key = none) :
    c.lookup key = some (v, n) := by
  rw [lookup, lookupAll, head?_lookupFrom hl hv hbefore, Nat.zero_add]

theorem lookup_eq_none (h : ∀ (j : Nat) (l : CompiledLevel), c.levels[j]? = some l →
    l.get? key = none) :
    c.lookup key = none := by
  rw [lookup, lookupAll, lookupFrom_eq_nil, List.head?_nil]
  intro l hl
  obtain ⟨j, hj⟩ := List.mem_iff_getElem?.mp hl
  exact h j l hj

end Lookup

end Compiled
end Cascade
