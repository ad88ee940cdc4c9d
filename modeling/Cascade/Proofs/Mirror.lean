import Cascade.Proofs.DataFile
import Cascade.Proofs.Store
import Mathlib.Data.List.Induction
/-!
Whether the copies that the levels of a hierarchy keep are what their files say. A write renews the copy
of the one level that it is made through, and does so right if the header of what it writes is read
again. No other copy is renewed, so what every other path reads has to stay as it is.
-/
namespace Cascade

/-- A write to a hierarchy. -/
inductive LevelCall
  | assign (level : Nat) (key : String) (v : Value)
  | assignRaw (level : Nat) (key : String) (v : Value)
  | erase (level : Nat) (key : String)

namespace LevelCall

def level : LevelCall → Nat
  | assign n _ _ | assignRaw n _ _ | erase n _ => n

/-- Whether what is written is data. -/
def isData : LevelCall → Bool
  | assign _ _ v | assignRaw _ _ v => v.isData
  | erase .. => true

/-- Makes a call and tells whether it has written the file of its level. -/
def run : LevelCall → Storing Bool
  | assign n key v => do
    Storing.assign .plain n key v
    return true
  | assignRaw n key v => do
    Storing.assignRaw .plain n key v
    return true
  | erase n key => return (← Storing.erase .plain n key).isSome

end LevelCall

namespace Store

/-- What a call leaves behind, whether or not it fails. -/
def call (s : Store) (c : LevelCall) : Store := (c.run.run s).2

/-- The file that a call has written. -/
def written? (s : Store) (c : LevelCall) : Option DataFile :=
  if (c.run.run s).1.toOption = some true then
    ((s.call c).compiled.levels[c.level]?).bind (·.file)
  else none

/-- What a call to a level does, by the file that it writes. -/
inductive Did (s : Store) (n : Nat) (s' : Store) : Option DataFile → Prop
  | failed (compiled : s'.compiled = s.compiled) (files : s.files.Extended s'.files) :
      Did s n s' none
  | idle {l : CompiledLevel} {copy : Option DataFile} (level : s.compiled.levels[n]? = some l)
      (found : DataFile.open s.files l.path = .ok copy)
      (compiled : s'.compiled = s.compiled.putLevel n { l with file := copy })
      (files : s'.files = s.files) : Did s n s' none
  | wrote {l : CompiledLevel} {old : Option DataFile} {f : DataFile}
      (level : s.compiled.levels[n]? = some l) (found : DataFile.open s.files l.path = .ok old)
      (path : f.path = l.path) (header : f.header = (old.map (·.header)).getD "")
      (data : f.isData = true)
      (compiled : s'.compiled = s.compiled.putLevel n { l with file := some f })
      (saved : f.save s.files = .ok s'.files) : Did s n s' (some f)

end Store

theorem Disk.plain_leaves {c : Compiled} {n : Nat} {files files' : Files} {e : HierarchyError}
    (h : c.Leaves .plain n files files' e) : files.Extended files' := by
  rcases h with h | ⟨l, made, text, cause, -, hmade, hw, -, -⟩
  · exact h
  · cases hstep : made.write l.path (.text text) with
    | error e =>
      simp only [plain, Filing.ofStep, ExceptT.run, hstep] at hw
      obtain ⟨-, rfl⟩ := Prod.mk.inj hw
      exact hmade
    | ok files'' => 
      simp only [plain, Filing.ofStep, ExceptT.run, hstep] at hw
      exact absurd (Prod.mk.inj hw).1 (by simp)

namespace Store

variable {s s' : Store} {n : Nat} {c : LevelCall} {f : DataFile} {l : CompiledLevel}

theorem getElem?_putLevel {c : Compiled} {l : CompiledLevel} (hl : c.levels[n]? = some l)
    (l' : CompiledLevel) : (c.putLevel n l').levels[n]? = some l' := by
  rw [Compiled.putLevel, List.getElem?_set_self (List.getElem?_eq_some_iff.mp hl).1]

/-- What is written to a file keeps the header that was read there. -/
theorem did_of_assignRaw {key : String} {v : Value} {compiled : Compiled} {files : Files}
    (hv : v.isData = true) (h : s.compiled.assignRaw s.files n key v = .ok (compiled, files))
    (hc : s'.compiled = compiled) (hf : s'.files = files) :
    Did s n s' ((s'.compiled.levels[n]?).bind (·.file)) := by
  obtain ⟨l, hlevel, -⟩ := bind_eq_ok.mp h
  have hl := Compiled.getElem?_of_level hlevel
  obtain ⟨l', hset, rfl⟩ := Compiled.exists_set_of_assignRaw hl h
  obtain ⟨old, ho, rfl, hs⟩ := CompiledLevel.set_outcome hset
  rw [hc, getElem?_putLevel hl]
  have hfound : ∀ g, old = some g → g.path = l.path ∧ g.isData = true := by
    rintro g rfl
    obtain ⟨text, ht⟩ := DataFile.exists_parse_of_open ho
    exact ⟨DataFile.path_of_parse ht, DataFile.isData_of_parse ht⟩
  cases old with
  | none => exact .wrote hl ho rfl rfl (DataFile.isData_set (.refl _) hv key) hc (hf ▸ hs)
  | some g =>
    obtain ⟨hp, hd⟩ := hfound g rfl
    exact .wrote hl ho hp rfl (DataFile.isData_set hd hv key) hc (hf ▸ hs)

theorem did_of_erase {key : String} {removed : Option Value} {compiled : Compiled} {files : Files}
    (h : s.compiled.erase s.files n key = .ok (removed, compiled, files))
    (hc : s'.compiled = compiled) (hf : s'.files = files) :
    Did s n s' (if removed.isSome then (s'.compiled.levels[n]?).bind (·.file) else none) := by
  obtain ⟨l, hl⟩ := Compiled.exists_level_of_erase h
  obtain ⟨l', herase, rfl⟩ := Compiled.exists_erase_of_erase hl h
  obtain ⟨old, ho, -, hrest⟩ := CompiledLevel.erase_outcome herase
  rw [hc, getElem?_putLevel hl]
  rcases hrest with ⟨rfl, rfl, rfl⟩ | ⟨g, rfl, hsome, rfl, hs⟩
  · exact .idle hl ho hc hf
  · obtain ⟨text, ht⟩ := DataFile.exists_parse_of_open ho
    rw [if_pos hsome]
    exact .wrote hl ho ((g.path_erase key).trans (DataFile.path_of_parse ht)) rfl
      (DataFile.isData_erase (DataFile.isData_of_parse ht) key) hc (hf ▸ hs)

/-- The form in which a level stores data is data. -/
theorem isData_storedForm {files : Files} {v stored : Value} {entropy entropy' : Entropy}
    (hv : v.isData = true)
    (h : Compiled.storedForm files l v entropy = .ok (stored, entropy')) : stored.isData = true := by
  unfold Compiled.storedForm at h
  split at h
  · obtain ⟨rfl, -⟩ := Prod.mk.inj (Except.ok.inj h)
    exact hv
  · obtain ⟨key, -, h⟩ := bind_eq_ok.mp h
    obtain ⟨r, -, h⟩ := bind_eq_ok.mp h
    obtain ⟨rfl, -⟩ := Prod.mk.inj (Except.ok.inj h)
    rfl

/-- A call does what the write does that it makes, and tells what it has written. -/
theorem did_of_agrees {α γ : Type} {x : Storing α} (wrote : α → Bool)
    {old : Except HierarchyError γ} {k : γ → α × Store} (hx : Agrees x s (old.map k))
    (hc : c.run = x >>= fun a => pure (wrote a))
    (herror : ∀ t e, x.run s = (.error e, t) → s.Undone .plain c.level t e)
    (hok : ∀ r, old = .ok r → Did s c.level (k r).2
      (if wrote (k r).1 then ((k r).2.compiled.levels[c.level]?).bind (·.file) else none)) :
    Did s c.level (s.call c) (s.written? c) := by
  unfold written? call
  rw [hc, run_bind]
  cases old with
  | error e =>
    obtain ⟨t, ht⟩ := hx.run_error
    rw [ht]
    exact .failed (herror t e ht).compiled (Disk.plain_leaves (herror t e ht).files)
  | ok r =>
    rw [hx.run_ok]
    have hdid := hok r rfl
    change Did s c.level (k r).2 (if (Except.ok (wrote (k r).1) :
      Except HierarchyError Bool).toOption = some true then _ else none)
    cases hw : wrote (k r).1 with
    | false =>
      rw [hw] at hdid
      exact hdid
    | true =>
      rw [hw] at hdid
      exact hdid

theorem did_call (s : Store) (hd : c.isData = true) : Did s c.level (s.call c) (s.written? c) := by
  cases c with
  | assign n key v =>
    refine did_of_agrees (fun _ => true) (Storing.agrees_assign n key v s) rfl
      (fun _ _ => Storing.undone_assign Disk.plain_lawful) fun r hr => ?_
    obtain ⟨l, stored, -, hstored, hraw⟩ := Compiled.exists_assignRaw_of_assign hr
    exact did_of_assignRaw (isData_storedForm hd hstored) hraw rfl rfl
  | assignRaw n key v =>
    exact did_of_agrees (fun _ => true) (Storing.agrees_assignRaw n key v s) rfl
      (fun _ _ => Storing.undone_assignRaw Disk.plain_lawful) fun r hr =>
        did_of_assignRaw hd hr rfl rfl
  | erase n key =>
    exact did_of_agrees Option.isSome (Storing.agrees_erase n key s) rfl
      (fun _ _ => Storing.undone_erase Disk.plain_lawful) fun r hr => did_of_erase hr rfl rfl

/-- Every level has in memory what opening its path would read. -/
def Mirrors (s : Store) : Prop :=
  ∀ l ∈ s.compiled.levels, DataFile.open s.files l.path = .ok l.file

/-- What a call writes keeps its header, and what the paths of the other levels read is as it was; so
is what the path of its own level reads, if it writes nothing. -/
structure Contained (s : Store) (c : LevelCall) : Prop where
  header : ∀ f, s.written? c = some f → f.keepsHeader
  others : ∀ n l, s.compiled.levels[n]? = some l → (n = c.level → s.written? c = none) →
    DataFile.open (s.call c).files l.path = DataFile.open s.files l.path

theorem putLevel_self {c : Compiled} (hl : c.levels[n]? = some l) : c.putLevel n l = c := by
  obtain ⟨hlt, rfl⟩ := List.getElem?_eq_some_iff.mp hl
  rw [Compiled.putLevel, List.set_getElem_self]

theorem mirrors_iff_of_compiled (hm : s.Mirrors) (hc : (s.call c).compiled = s.compiled)
    (hw : s.written? c = none) : (s.call c).Mirrors ↔ s.Contained c := by
  constructor
  · intro hm'
    refine ⟨fun f hf => absurd (hw.symm.trans hf) (by simp), fun n l hl _ => ?_⟩
    have hin := List.mem_of_getElem? hl
    rw [hm' l (hc ▸ hin), hm l hin]
  · intro hcontained l hin
    rw [hc] at hin
    obtain ⟨n, hl⟩ := List.mem_iff_getElem?.mp hin
    rw [hcontained.others n l hl fun _ => hw, hm l hin]

/-- A call through a hierarchy that mirrors its files leaves one that does if and only if it is
contained. -/
theorem mirrors_call_iff (hm : s.Mirrors) (hd : c.isData = true)
    (hr : ∀ f, s.written? c = some f → f.ReadsBack) : (s.call c).Mirrors ↔ s.Contained c := by
  have hdid := did_call s hd
  generalize hw : s.written? c = w at hdid hr
  cases hdid with
  | failed hc hf => exact mirrors_iff_of_compiled hm hc hw
  | @idle l copy hl ho hc hf =>
    obtain rfl : copy = l.file := Except.ok.inj (ho.symm.trans (hm l (List.mem_of_getElem? hl)))
    exact mirrors_iff_of_compiled hm (hc.trans (putLevel_self hl)) hw
  | @wrote l old f hl ho hp hh hdata hc hs =>
    have hopen := DataFile.open_of_save_iff ho hp hh hdata (hr f rfl) hs
    have hlevel : (s.call c).compiled.levels[c.level]? = some { l with file := some f } := by
      rw [hc, getElem?_putLevel hl]
    have hother : ∀ n, n ≠ c.level →
        (s.call c).compiled.levels[n]? = s.compiled.levels[n]? := by
      intro n hn
      rw [hc, Compiled.putLevel, List.getElem?_set_ne (Ne.symm hn)]
    constructor
    · intro hm'
      refine ⟨fun g hg => ?_, fun n l' hl' hn => ?_⟩
      · obtain rfl := Option.some.inj (hw.symm.trans hg)
        exact hopen.mp (hm' _ (List.mem_of_getElem? hlevel))
      · have hne : n ≠ c.level := fun he => absurd (hw.symm.trans (hn he)) (by simp)
        rw [hm' l' (List.mem_of_getElem? ((hother n hne).trans hl')), hm l' (List.mem_of_getElem? hl')]
    · intro hcontained l' hin
      obtain ⟨n, hl'⟩ := List.mem_iff_getElem?.mp hin
      by_cases hn : n = c.level
      · subst hn
        obtain rfl := Option.some.inj (hlevel.symm.trans hl')
        exact hopen.mpr (hcontained.header f hw)
      · rw [hother n hn] at hl'
        rw [hcontained.others n l' hl' fun he => absurd he hn, hm l' (List.mem_of_getElem? hl')]

/-- What of a level no write changes. -/
def essence (l : CompiledLevel) : Level × String × Option KeyPaths × Facts :=
  (l.level, l.path, l.keys, DataFile.factsIn l.file)

/-- A hierarchy whose files are written has the same levels, and these set the same facts. -/
structure Follows (s s' : Store) : Prop where
  facts : s'.compiled.facts = s.compiled.facts
  levels : s'.compiled.levels.map essence = s.compiled.levels.map essence

theorem Follows.refl (s : Store) : s.Follows s := ⟨rfl, rfl⟩

theorem Follows.trans {s'' : Store} (h : s.Follows s') (h' : s'.Follows s'') : s.Follows s'' :=
  ⟨h'.facts.trans h.facts, h'.levels.trans h.levels⟩

theorem factsIn_congr {old : Option DataFile} (h : f.header = (old.map (·.header)).getD "") :
    DataFile.factsIn (some f) = DataFile.factsIn old := by
  cases old with
  | none =>
    have hnone : f.header = "" := h
    simp only [DataFile.factsIn, Option.elim, DataFile.factOverrides, hnone]
    rfl
  | some g =>
    have hsome : f.header = g.header := h
    simp only [DataFile.factsIn, Option.elim, DataFile.factOverrides, hsome]

theorem follows_call (hm : s.Mirrors) (hd : c.isData = true) : s.Follows (s.call c) := by
  have hdid := did_call s hd
  generalize s.written? c = w at hdid
  cases hdid with
  | failed hc hf => exact ⟨by rw [hc], by rw [hc]⟩
  | @idle l copy hl ho hc hf =>
    obtain rfl : copy = l.file := Except.ok.inj (ho.symm.trans (hm l (List.mem_of_getElem? hl)))
    rw [putLevel_self hl] at hc
    exact ⟨by rw [hc], by rw [hc]⟩
  | @wrote l old f hl ho hp hh hdata hc hs =>
    obtain rfl : old = l.file := Except.ok.inj (ho.symm.trans (hm l (List.mem_of_getElem? hl)))
    refine ⟨by rw [hc]; rfl, ?_⟩
    have hsame : essence { l with file := some f } = essence l := by
      simp only [essence, factsIn_congr hh]
    obtain ⟨hlt, rfl⟩ := List.getElem?_eq_some_iff.mp hl
    rw [hc, Compiled.putLevel, List.map_set, hsame]
    have hset := List.set_getElem_self
      (show c.level < (s.compiled.levels.map essence).length by simpa using hlt)
    rwa [List.getElem_map] at hset

/-- A level with what is at its path now. -/
def reread (files : Files) (l : CompiledLevel) : CompiledLevel :=
  { l with file := (DataFile.open files l.path).toOption.join }

theorem Follows.reread_eq (h : s.Follows s') (hm : s'.Mirrors) :
    s'.compiled = ⟨s.compiled.levels.map (reread s'.files), s.compiled.facts⟩ := by
  refine congrArg₂ Compiled.mk (List.ext_getElem? fun i => ?_) h.facts
  have hi := congrArg (·[i]?) h.levels
  simp only [List.getElem?_map] at hi ⊢
  cases hl' : s'.compiled.levels[i]? with
  | none =>
    rw [hl'] at hi
    cases hl : s.compiled.levels[i]? with
    | none => rfl
    | some l => simp [hl] at hi
  | some l' =>
    rw [hl'] at hi
    cases hl : s.compiled.levels[i]? with
    | none => simp [hl] at hi
    | some l =>
      rw [hl] at hi
      have hopen := hm l' (List.mem_of_getElem? hl')
      obtain ⟨level, path, keys, file⟩ := l
      obtain ⟨level', path', keys', file'⟩ := l'
      simp only [essence, Option.map_some, Option.some.injEq, Prod.mk.injEq] at hi
      obtain ⟨rfl, rfl, rfl, -⟩ := hi
      simp only at hopen
      simp [reread, hopen, Except.toOption]

/-- A path of a level can be read, and what is there sets the facts that it has always set. -/
theorem Follows.exists_open (h : s.Follows s') (hm : s'.Mirrors) (hl : l ∈ s.compiled.levels) :
    ∃ copy, DataFile.open s'.files l.path = .ok copy ∧
      DataFile.factsIn copy = DataFile.factsIn l.file := by
  have hin : essence l ∈ s'.compiled.levels.map essence := h.levels ▸ List.mem_map_of_mem hl
  obtain ⟨l', hl', he⟩ := List.mem_map.mp hin
  simp only [essence, Prod.mk.injEq] at he
  obtain ⟨-, hpath, -, hfacts⟩ := he
  exact ⟨l'.file, hpath ▸ hm l' hl', hfacts⟩

variable {h : Hierarchy} {facts trusted : Facts} {cs : List LevelCall}

/-- What is read while the facts that headers set are not known, and only then, is as it was. -/
def Steady (h : Hierarchy) (facts trusted : Facts) (s s' : Store) : Prop :=
  ∀ level ∈ h.levels,
    (∀ l ∈ s.compiled.levels, l.path ≠ Compiled.pathOf h level facts trusted) →
      DataFile.open s'.files (Compiled.pathOf h level facts trusted) =
        DataFile.open s.files (Compiled.pathOf h level facts trusted)

/-- Where no header sets a fact, nothing is read but the files of the levels. -/
theorem steady_of_facts (hc : Compiled.compile s.files h facts trusted = .ok s.compiled)
    (hf : s.compiled.facts = facts) (s' : Store) : Steady h facts trusted s s' := by
  intro level hlevel hne
  obtain ⟨l, hl, hb⟩ := exists_mem_of_mapM (Compiled.bindLevels_of_compile hc) hlevel
  obtain ⟨file, -, rfl⟩ := Compiled.bindLevel_eq_ok.mp hb
  exact absurd (by rw [hf]) (hne _ hl)

/-- A hierarchy that mirrors its files is what would be bound anew. -/
theorem compile_of_follows (hc : Compiled.compile s.files h facts trusted = .ok s.compiled)
    (hf : s.Follows s') (hm : s'.Mirrors) (hs : Steady h facts trusted s s') :
    Compiled.compile s'.files h facts trusted = .ok s'.compiled := by
  have hlevels := Compiled.bindLevels_of_compile hc
  -- What the first pass reads is the file of a level or has not changed.
  have hread : ∀ level ∈ h.levels, ∀ facts' ∈ [facts, s.compiled.facts], ∀ l,
      Compiled.bindLevel s.files h facts' trusted level = .ok l →
        ∃ copy, DataFile.open s'.files l.path = .ok copy ∧
          DataFile.factsIn copy = DataFile.factsIn l.file := by
    intro level hlevel facts' hfacts' l hb
    have ho := Compiled.open_of_bindLevel hb
    by_cases hin : ∃ l' ∈ s.compiled.levels, l'.path = l.path
    · obtain ⟨l', hl', hp⟩ := hin
      obtain ⟨copy, hcopy, hfacts⟩ := hf.exists_open hm hl'
      have ho' := Compiled.open_of_bindLevels hlevels hl'
      rw [hp] at hcopy ho'
      rw [Except.ok.inj (ho'.symm.trans ho)] at hfacts
      exact ⟨copy, hcopy, hfacts⟩
    · have hpath : l.path = Compiled.pathOf h level facts' trusted := by
        obtain ⟨file, -, rfl⟩ := Compiled.bindLevel_eq_ok.mp hb
        rfl
      rcases List.mem_pair.mp hfacts' with rfl | rfl
      · have hsame := hs level hlevel fun l' hl' he => hin ⟨l', hl', he.trans hpath.symm⟩
        rw [← hpath, ho] at hsame
        exact ⟨l.file, hsame, rfl⟩
      · obtain ⟨l', hl', hb'⟩ := exists_mem_of_mapM hlevels hlevel
        obtain rfl := Except.ok.inj (hb.symm.trans hb')
        exact absurd ⟨l, hl', rfl⟩ hin
  rw [hf.reread_eq hm]
  refine Compiled.compile_map hc (fun level hlevel facts' hfacts' l hb => ?_)
    fun level hlevel l hb => ?_
  · obtain ⟨copy, hcopy, -⟩ := hread level hlevel facts' hfacts' l hb
    obtain ⟨file, -, rfl⟩ := Compiled.bindLevel_eq_ok.mp hb
    exact Compiled.bindLevel_eq_ok.mpr ⟨copy, hcopy, by simp [reread, hcopy, Except.toOption]⟩
  · obtain ⟨copy, hcopy, hfacts⟩ := hread level hlevel facts (by simp) l hb
    simp [reread, hcopy, Except.toOption, hfacts]

/-- What calls leave behind, one after another. -/
def after (s : Store) (cs : List LevelCall) : Store := cs.foldl call s

theorem after_snoc (s : Store) (cs : List LevelCall) (c : LevelCall) :
    s.after (cs ++ [c]) = (s.after cs).call c := by
  rw [after, List.foldl_append]
  rfl

theorem mirrors_of_compile (hc : Compiled.compile s.files h facts trusted = .ok s.compiled) :
    s.Mirrors := fun _ hl => Compiled.open_of_bindLevels (Compiled.bindLevels_of_compile hc) hl

/-- Calls that are all contained. -/
theorem mirrors_after (hm : s.Mirrors) (hd : ∀ c ∈ cs, c.isData = true)
    (hr : ∀ pre c, pre ++ [c] <+: cs → ∀ f, (s.after pre).written? c = some f → f.ReadsBack)
    (hcontained : ∀ pre c, pre ++ [c] <+: cs → (s.after pre).Contained c) :
    (s.after cs).Mirrors ∧ s.Follows (s.after cs) := by
  induction cs using List.reverseRecOn with
  | nil => exact ⟨hm, .refl s⟩
  | append_singleton pre c ih =>
    have hpre : ∀ {pre' c'}, pre' ++ [c'] <+: pre → pre' ++ [c'] <+: pre ++ [c] :=
      fun hp => hp.trans (List.prefix_append pre [c])
    obtain ⟨hmirrors, hfollows⟩ := ih (fun c' hc' => hd c' (by simp [hc']))
      (fun pre' c' hp => hr pre' c' (hpre hp)) (fun pre' c' hp => hcontained pre' c' (hpre hp))
    have hdc := hd c (by simp)
    rw [after_snoc]
    exact ⟨(mirrors_call_iff hmirrors hdc (hr pre c (List.prefix_refl _))).mpr
      (hcontained pre c (List.prefix_refl _)), hfollows.trans (follows_call hmirrors hdc)⟩

/-- Through a run of calls, every level is always what its file says, and the hierarchy what would be
bound anew, if and only if every call is contained. -/
theorem after_mirrors_iff (hc : Compiled.compile s.files h facts trusted = .ok s.compiled)
    (hd : ∀ c ∈ cs, c.isData = true)
    (hr : ∀ pre c, pre ++ [c] <+: cs → ∀ f, (s.after pre).written? c = some f → f.ReadsBack)
    (hs : ∀ pre, pre <+: cs → Steady h facts trusted s (s.after pre)) :
    (∀ pre, pre <+: cs → (s.after pre).Mirrors ∧
      Compiled.compile (s.after pre).files h facts trusted = .ok (s.after pre).compiled) ↔
    ∀ pre c, pre ++ [c] <+: cs → (s.after pre).Contained c := by
  constructor
  · intro hall pre c hp
    have hpre : pre <+: cs := (List.prefix_append pre [c]).trans hp
    refine (mirrors_call_iff (hall pre hpre).1 (hd c (hp.subset (by simp))) (hr pre c hp)).mp ?_
    rw [← after_snoc]
    exact (hall _ hp).1
  · intro hcontained pre hp
    obtain ⟨hmirrors, hfollows⟩ := mirrors_after (mirrors_of_compile hc)
      (fun c hin => hd c (hp.subset hin)) (fun pre' c hp' => hr pre' c (hp'.trans hp))
      (fun pre' c hp' => hcontained pre' c (hp'.trans hp))
    exact ⟨hmirrors, compile_of_follows hc hfollows hmirrors (hs pre hp)⟩

/-- A hierarchy of some templates without references. -/
def fixed (templates : List String) : Hierarchy :=
  ⟨5, "data", none, templates.map fun t => ⟨t, t, none, none⟩⟩

/-- It has just been bound over an empty directory. -/
def blank (templates : List String) : Store where
  compiled := ⟨templates.map fun t => ⟨⟨t, t, none, none⟩, Path.join "data" t, none, none⟩, []⟩
  files := .empty [] 0
  entropy := ⟨fun _ => 0, 0⟩

theorem readsBack_of_zipIdx (h : cs.zipIdx.all (fun e =>
      ((s.after (cs.take e.2)).written? e.1).all (·.readsBack)) = true) (pre : List LevelCall)
    (c : LevelCall) (hp : pre ++ [c] <+: cs) (f : DataFile)
    (hf : (s.after pre).written? c = some f) : f.ReadsBack := by
  have hall := of_zipIdx (P := fun pre c => ((s.after pre).written? c).all (·.readsBack)) h hp
  rw [hf, Option.all_some] at hall
  exact .of_readsBack hall

/-- Each of two levels is written, then a key is removed, then one that is not there, and one from a
level that is not there. -/
def edits : List LevelCall :=
  [.assignRaw 0 "k" (.integer 1), .assign 1 "k" (.string "x"), .erase 0 "k", .erase 1 "l",
    .erase 2 "k"]

theorem compile_pair : Compiled.compile (blank ["a.yaml", "b.yaml"]).files
    (fixed ["a.yaml", "b.yaml"]) [] [] = .ok (blank ["a.yaml", "b.yaml"]).compiled := rfl

theorem compile_twins : Compiled.compile (blank ["common.yaml", "common.yaml"]).files
    (fixed ["common.yaml", "common.yaml"]) [] [] =
      .ok (blank ["common.yaml", "common.yaml"]).compiled := rfl

/-- Two levels that have a file each. -/
theorem pair_mirrors_iff :
    (∀ pre, pre <+: edits → ((blank ["a.yaml", "b.yaml"]).after pre).Mirrors ∧
      Compiled.compile ((blank ["a.yaml", "b.yaml"]).after pre).files (fixed ["a.yaml", "b.yaml"])
        [] [] = .ok ((blank ["a.yaml", "b.yaml"]).after pre).compiled) ↔
    ∀ pre c, pre ++ [c] <+: edits → ((blank ["a.yaml", "b.yaml"]).after pre).Contained c := by
  have hc := compile_pair
  exact after_mirrors_iff hc (by decide) (readsBack_of_zipIdx (by decide +kernel))
    fun _ _ => steady_of_facts hc rfl _

/-- Two levels that share a file. The copy of the one that is not written is stale, and so a key is
found on the level where it was written and not, as it would be anew, on the first one. -/
theorem twins_not_mirrored :
    let h := fixed ["common.yaml", "common.yaml"]
    let s := blank ["common.yaml", "common.yaml"]
    let c := LevelCall.assignRaw 1 "k" (.integer 1)
    Compiled.compile s.files h [] [] = .ok s.compiled ∧ c.isData = true ∧
      (∀ f, s.written? c = some f → f.ReadsBack) ∧ (∀ s', Steady h [] [] s s') ∧
      ¬(s.call c).Mirrors ∧ ((s.call c).compiled.lookup "k").map (·.2) = some 1 ∧
        ((Compiled.compile (s.call c).files h [] []).toOption.bind (·.lookup "k")).map (·.2) =
          some 0 := by
  intro h s c
  have hread : (s.written? c).all (·.readsBack) = true := by decide +kernel
  have hstale : (s.call c).compiled.levels.any (fun l => l.file.isNone &&
      (DataFile.open (s.call c).files l.path).toOption.join.isSome) = true := by decide +kernel
  have hc := compile_twins
  refine ⟨hc, rfl, fun f hf => ?_, steady_of_facts hc rfl, fun hm => ?_, ?_, ?_⟩
  · rw [hf] at hread
    exact .of_readsBack hread
  · obtain ⟨l, hl, hnone⟩ := List.any_eq_true.mp hstale
    rw [hm l hl] at hnone
    cases hfile : l.file <;> simp [hfile, Except.toOption] at hnone
  · decide +kernel
  · decide +kernel

end Store
end Cascade
