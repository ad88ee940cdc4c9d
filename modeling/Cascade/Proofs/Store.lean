import Cascade.Hierarchy.Store
import Cascade.Proofs.Hierarchy
import Cascade.Proofs.Run
/-!
What a write to a hierarchy leaves behind when it fails: the copies are as they were, for they change in
the last step. Until then directories may have been made, and what the path of the level leads to may
be spoiled, but only by the last of the steps that can fail.
-/
namespace Cascade

variable {σ ε α β γ δ : Type}

/-- From `s`, `x` succeeds with what `r` has, or fails as `r` does. -/
inductive Agrees (x : ExceptT ε (StateM σ) α) (s : σ) : Except ε (α × σ) → Prop
  | ok {a : α} {s' : σ} (h : x.run s = (.ok a, s')) : Agrees x s (.ok (a, s'))
  | error {e : ε} {t : σ} (h : x.run s = (.error e, t)) : Agrees x s (.error e)

namespace Agrees

variable {x : ExceptT ε (StateM σ) α} {s s' : σ} {r : Except ε (α × σ)}

theorem of_run {o : Except ε α} (h : x.run s = (o, s')) : Agrees x s (o.map (·, s')) := by
  cases o with
  | error e => exact .error h
  | ok a => exact .ok h

theorem get_bind {f : σ → ExceptT ε (StateM σ) α} (h : Agrees (f s) s r) :
    Agrees (get >>= f) s r := by
  cases h with
  | ok h => exact .ok h
  | error h => exact .error h

theorem run_ok {a : α} (h : Agrees x s (.ok (a, s'))) : x.run s = (.ok a, s') := by
  cases h with
  | ok h => exact h

theorem run_error {e : ε} (h : Agrees x s (.error e)) : ∃ s', x.run s = (.error e, s') := by
  cases h with
  | error h => exact ⟨_, h⟩

/-- Programs in steps agree if their steps do. -/
theorem bind {old : Except ε γ} {k : γ → α × σ} {g : γ → Except ε δ} {k' : δ → β × σ}
    {f : α → ExceptT ε (StateM σ) β} (hx : Agrees x s (old.map k))
    (hf : ∀ c, old = .ok c → Agrees (f (k c).1) (k c).2 ((g c).map k')) :
    Agrees (x >>= f) s ((old >>= g).map k') := by
  cases old with
  | error e =>
    obtain ⟨s', h⟩ := run_error hx
    exact .error (t := s') (by rw [run_bind, h])
  | ok c =>
    have hrun : (x >>= f).run s = (f (k c).1).run (k c).2 := by rw [run_bind, run_ok hx]
    change Agrees (x >>= f) s ((g c).map k')
    have hrest := hf c rfl
    cases hg : g c with
    | ok d =>
      rw [hg] at hrest
      exact .ok (hrun.trans (run_ok hrest))
    | error e =>
      rw [hg] at hrest
      obtain ⟨s', h⟩ := run_error hrest
      exact .error (hrun.trans h)

theorem of_pure {old : Except ε γ} {g : γ → δ} {k : δ → α × σ}
    (hx : Agrees x s (old.map fun c => k (g c))) :
    Agrees x s ((old >>= fun c => Pure.pure (g c)).map k) := by
  cases old <;> exact hx

end Agrees

namespace Filing

theorem agrees_ofStep (step : Files → Except IoError Files) (files : Files) :
    Agrees (ofStep step) files ((step files).map ((), ·)) := by
  cases h : step files with
  | error e => exact .error (t := files) (by simp only [ofStep, ExceptT.run, h])
  | ok files' => exact .ok (by simp only [ofStep, ExceptT.run, h])

theorem agrees_makeDirectoriesWithin (steps : Nat) (path : String) (files : Files) :
    Agrees (makeDirectoriesWithin steps path) files
      ((files.makeDirectoriesWithin steps path).map ((), ·)) := by
  induction steps generalizing path files with
  | zero => exact .error rfl
  | succ steps ih =>
    unfold makeDirectoriesWithin Files.makeDirectoriesWithin
    split
    · exact .ok rfl
    · refine .get_bind ?_
      cases he : files.ensureDirectory path with
      | ok files' => exact .ok rfl
      | error e =>
        cases e with
        | notFound =>
          cases Path.parent? path with
          | none => exact .error rfl
          | some parent => exact .bind (ih parent files) fun made _ => agrees_ofStep _ made
        | _ => exact .error rfl

end Filing

namespace Storing

variable {s : Store}

theorem agrees_ofExcept (r : Except HierarchyError α) (s : Store) :
    Agrees (ofExcept r) s (r.map (·, s)) := .of_run rfl

theorem agrees_level (n : Nat) (s : Store) :
    Agrees (level n) s ((s.compiled.level n).map (·, s)) := .get_bind (agrees_ofExcept _ s)

theorem run_onFiles (path : String) (x : Filing α) (s : Store) : (onFiles path x).run s =
    ((x.run s.files).1.mapError (.io path), { s with files := (x.run s.files).2 }) := rfl

/-- An operation on files fails as it does elsewhere, but the failure is told with a path. -/
theorem agrees_onFiles {x : Filing Unit} {old : Except IoError Files} (path : String)
    (h : Agrees x s.files (old.map ((), ·))) : Agrees (onFiles path x) s
      ((old.mapError (.io path)).map fun files => ((), { s with files })) := by
  cases old with
  | error e =>
    obtain ⟨files, hrun⟩ := h.run_error
    exact .error (t := { s with files }) (by rw [run_onFiles, hrun]; rfl)
  | ok files => exact .ok (by rw [run_onFiles, h.run_ok]; rfl)

theorem agrees_open (path : String) (s : Store) :
    Agrees (Storing.open .plain path) s ((DataFile.open s.files path).map (·, s)) := by
  unfold Storing.open DataFile.open Files.readOptional
  refine .get_bind ?_
  simp only [Disk.plain]
  cases s.files.readText path with
  | ok text => exact agrees_ofExcept _ s
  | error e => cases e <;> first | exact .ok rfl | exact .error rfl

theorem agrees_makeParent (path : String) (s : Store) : Agrees (makeParent .plain path) s
    ((DataFile.makeParent s.files path).map fun files => ((), { s with files })) := by
  unfold makeParent DataFile.makeParent
  cases Path.parent? path with
  | none => exact .ok rfl
  | some parent =>
    have h := agrees_onFiles parent
      (Filing.agrees_makeDirectoriesWithin (parent.length + 1) parent s.files)
    rw [← Files.makeDirectories] at h
    simp only
    cases hm : s.files.makeDirectories parent with
    | error e =>
      rw [hm] at h
      exact h
    | ok files =>
      rw [hm] at h
      exact h

theorem agrees_save (f : DataFile) (s : Store) : Agrees (save .plain f) s
    ((f.save s.files).map fun files => ((), { s with files })) := by
  refine .bind (agrees_makeParent f.path s) fun made _ => ?_
  have h := agrees_onFiles (s := { s with files := made }) f.path
    (Filing.agrees_ofStep (·.write f.path (.text f.text)) made)
  simp only
  cases hw : made.write f.path (.text f.text) with
  | error e =>
    rw [hw] at h
    exact h
  | ok files =>
    rw [hw] at h
    exact h

theorem agrees_assignRaw (n : Nat) (key : String) (v : Value) (s : Store) :
    Agrees (assignRaw .plain n key v) s
      ((s.compiled.assignRaw s.files n key v).map fun r => ((), ⟨r.1, r.2, s.entropy⟩)) := by
  unfold Compiled.assignRaw CompiledLevel.set
  simp only [bind_assoc, pure_bind]
  exact .bind (agrees_level n s) fun l _ => .bind (agrees_open l.path s) fun old _ =>
    .bind (agrees_save _ s) fun files _ => .ok rfl

theorem agrees_erase (n : Nat) (key : String) (s : Store) :
    Agrees (erase .plain n key) s ((s.compiled.erase s.files n key).map fun r =>
      (r.1, ⟨r.2.1, r.2.2, s.entropy⟩)) := by
  unfold Compiled.erase CompiledLevel.erase
  simp only [bind_assoc]
  refine .bind (agrees_level n s) fun l _ => .bind (agrees_open l.path s) fun old _ => ?_
  cases old with
  | none => exact .ok rfl
  | some f =>
    simp only
    cases f.get? key with
    | none => exact .ok rfl
    | some v => 
      simp only [bind_assoc]
      exact .bind (agrees_save _ s) fun files _ => .ok rfl

theorem agrees_storedForm (l : CompiledLevel) (v : Value) (s : Store) :
    Agrees (storedForm .plain l v) s ((Compiled.storedForm s.files l v s.entropy).map fun r =>
      (r.1, { s with entropy := r.2 })) := by
  unfold storedForm Compiled.storedForm
  cases l.keys with
  | none => exact .ok rfl
  | some keys =>
    have hkey : Agrees (loadKey .plain keys) s ((Envelope.loadKey s.files keys).map (·, s)) := by
      unfold loadKey Envelope.loadKey
      refine .get_bind ?_
      simp only [Disk.plain]
      cases s.files.readText keys.publicKey with
      | error e => exact .error rfl
      | ok text => exact agrees_ofExcept _ s
    exact .bind hkey fun key _ => .get_bind (.bind (agrees_ofExcept _ s) fun r _ => .ok rfl)

theorem agrees_assign (n : Nat) (key : String) (v : Value) (s : Store) :
    Agrees (assign .plain n key v) s ((s.compiled.assign s.files s.entropy n key v).map fun r =>
      ((), ⟨r.1, r.2.1, r.2.2⟩)) := by
  unfold Compiled.assign
  exact .bind (agrees_level n s) fun l _ => .bind (agrees_storedForm l v s) fun r _ =>
    .of_pure (agrees_assignRaw n key r.1 { s with entropy := r.2 })

end Storing

/-- Some directories are new, and nothing else. -/
structure Files.Extended (files files' : Files) : Prop where
  workDir : files'.workDir = files.workDir
  gains : files.Gains files'

/-- Nothing has changed but what a path leads to. -/
structure Files.ChangedAt (path : String) (files files' : Files) : Prop where
  workDir : files'.workDir = files.workDir
  others : ∀ place, files.locate path ≠ .ok place → files'.entry? place = files.entry? place

namespace Files

theorem Extended.refl (files : Files) : files.Extended files := ⟨rfl, .refl files⟩

theorem Extended.trans {files files' files'' : Files} (h : files.Extended files')
    (h' : files'.Extended files'') : files.Extended files'' :=
  ⟨h'.workDir.trans h.workDir, h.gains.trans h'.gains⟩

theorem ChangedAt.refl (path : String) (files : Files) : ChangedAt path files files :=
  ⟨rfl, fun _ _ => rfl⟩

end Files

/-- What a disk does even where it fails: it makes directories and nothing else, and writes nothing
but the file it is to write. -/
structure Disk.Lawful (d : Disk) : Prop where
  makeDirectories : ∀ path (files : Files), files.Extended ((d.makeDirectories path).run files).2
  write : ∀ path text (files : Files), files.ChangedAt path ((d.write path text).run files).2

namespace Filing

/-- A step that fails has done nothing. -/
theorem run_ofStep {R : Files → Files → Prop} (refl : ∀ files, R files files)
    {step : Files → Except IoError Files} (h : ∀ files files', step files = .ok files' → R files files')
    (files : Files) : R files ((ofStep step).run files).2 := by
  unfold ofStep
  cases hs : step files with
  | error e => simpa [ExceptT.run, hs] using refl files
  | ok files' => simpa [ExceptT.run, hs] using h files files' hs

theorem extended_makeDirectory {files files' : Files} {path : String}
    (h : files.makeDirectory path = .ok files') : files.Extended files' := by
  refine ⟨?_, Files.gains_makeDirectory h⟩
  obtain ⟨target, -, h⟩ := bind_eq_ok.mp h
  split at h
  · exact absurd h (by simp [throw, throwThe, MonadExceptOf.throw])
  · rw [← Except.ok.inj h]
    rfl

theorem extended_ensureDirectory {files files' : Files} {path : String}
    (h : files.ensureDirectory path = .ok files') : files.Extended files' := by
  unfold Files.ensureDirectory at h
  split at h
  next hm =>
    rw [← Except.ok.inj h]
    exact extended_makeDirectory hm
  · split at h
    · rw [← Except.ok.inj h]
      exact .refl files
    · exact absurd h (by simp)

theorem extended_makeDirectoriesWithin (steps : Nat) (path : String) (files : Files) :
    files.Extended ((makeDirectoriesWithin steps path).run files).2 := by
  induction steps generalizing path files with
  | zero => exact .refl files
  | succ steps ih =>
    unfold makeDirectoriesWithin
    split
    · exact .refl files
    · rw [run_bind, run_get]
      dsimp only
      cases he : files.ensureDirectory path with
      | ok files' => exact extended_ensureDirectory he
      | error e =>
        cases e with
        | notFound =>
          cases Path.parent? path with
          | none => exact .refl files
          | some parent =>
            have hmade := ih parent files
            simp only [run_bind]
            rcases hrun : (makeDirectoriesWithin steps parent).run files with ⟨e | u, made⟩
            · rw [hrun] at hmade
              exact hmade
            · rw [hrun] at hmade
              exact hmade.trans (run_ofStep Files.Extended.refl (fun _ _ => extended_ensureDirectory) _)
        | _ => exact .refl files

end Filing

theorem Disk.plain_lawful : plain.Lawful where
  makeDirectories path := Filing.extended_makeDirectoriesWithin (path.length + 1) path
  write path text files := by
    refine Filing.run_ofStep (R := Files.ChangedAt path) (.refl path) (fun files files' h => ?_) files
    obtain ⟨written, hw, h⟩ := bind_eq_ok.mp h
    obtain ⟨target, hl, -, rfl⟩ := Files.exists_of_writeAt hw
    rw [← Except.ok.inj h]
    refine ⟨rfl, fun place hp => ?_⟩
    rw [Files.entry?_tick]
    refine Files.entry?_put_of_ne ?_ _
    rintro rfl
    exact hp hl

namespace DataFile

@[simp] theorem path_set (f : DataFile) (key : String) (v : Value) :
    (f.set key v).path = f.path := rfl

@[simp] theorem path_erase (f : DataFile) (key : String) : (f.erase key).path = f.path := rfl

end DataFile

/-- How far a failed write to a level can get: to new directories, and no further unless it is the
last step that fails, which writes the file of the level. Even then all other files are spared. -/
def Compiled.Leaves (d : Disk) (c : Compiled) (n : Nat) (files files' : Files) (e : HierarchyError) :
    Prop :=
  files.Extended files' ∨ ∃ l made text cause, c.levels[n]? = some l ∧ files.Extended made ∧
    (d.write l.path text).run made = (.error cause, files') ∧ e = .io l.path cause ∧
      made.ChangedAt l.path files'

/-- How a write to a level has failed: all the copies are as they were. -/
structure Store.Undone (d : Disk) (n : Nat) (s s' : Store) (e : HierarchyError) : Prop where
  compiled : s'.compiled = s.compiled
  files : s.compiled.Leaves d n s.files s'.files e

namespace Storing

variable {d : Disk} {s s' : Store} {n : Nat} {e : HierarchyError} {l : CompiledLevel} {key : String}

/-- Looking changes nothing. -/
def Looks (x : Storing α) : Prop := ∀ s, (x.run s).2 = s

theorem looks_level (n : Nat) : Looks (level n) := fun _ => rfl

theorem looks_open (d : Disk) (path : String) : Looks (Storing.open d path) := by
  intro s
  unfold Storing.open
  rw [run_bind, run_get]
  dsimp only
  split <;> rfl

theorem looks_loadKey (d : Disk) (keys : KeyPaths) : Looks (loadKey d keys) := by
  intro s
  unfold loadKey
  rw [run_bind, run_get]
  dsimp only
  split <;> rfl

theorem level_eq_ok (h : (level n).run s = (.ok l, s')) :
    s.compiled.levels[n]? = some l ∧ s' = s := by
  obtain ⟨hl, rfl⟩ := Prod.mk.inj h
  exact ⟨Compiled.getElem?_of_level hl, rfl⟩

theorem extended_makeParent (hd : d.Lawful) (path : String) (s : Store) :
    ∃ r files, (makeParent d path).run s = (r, { s with files }) ∧ s.files.Extended files := by
  unfold makeParent
  split
  · exact ⟨_, s.files, rfl, .refl _⟩
  next parent _ =>
    rw [run_onFiles]
    exact ⟨_, _, rfl, hd.makeDirectories parent s.files⟩

/-- A file that could not be saved is as it was, unless it was the write that failed. -/
theorem undone_save (hd : d.Lawful) {f : DataFile} (hl : s.compiled.levels[n]? = some l)
    (hp : f.path = l.path) (h : (save d f).run s = (.error e, s')) : s.Undone d n s' e := by
  obtain ⟨r, made, hmake, hmade⟩ := extended_makeParent hd f.path s
  rcases run_bind_eq_error.mp h with h | ⟨u, t, hok, h⟩
  · obtain ⟨-, rfl⟩ := Prod.mk.inj (hmake.symm.trans h)
    exact ⟨rfl, .inl hmade⟩
  · obtain ⟨-, rfl⟩ := Prod.mk.inj (hmake.symm.trans hok)
    rw [run_onFiles] at h
    obtain ⟨he, rfl⟩ := Prod.mk.inj h
    refine ⟨rfl, .inr ⟨l, made, f.text, ?_⟩⟩
    rcases hw : (d.write f.path f.text).run made with ⟨cause | u, files⟩
    · rw [hw] at he
      obtain rfl := Except.error.inj he
      have hchanged := hd.write f.path f.text made
      rw [hw] at hchanged
      exact ⟨cause, hl, hmade, by rw [← hp, hw], by rw [hp], hp ▸ hchanged⟩
    · rw [hw] at he
      exact absurd he (by simp [Except.mapError])

theorem Looks.undone {x : Storing α} (hx : Looks x) (h : x.run s = (.error e, s')) :
    s.Undone d n s' e := by
  have hs := hx s
  rw [h] at hs
  obtain rfl : s' = s := hs
  exact ⟨rfl, .inl (.refl _)⟩

theorem Looks.eq {x : Storing α} (hx : Looks x) {a : α} (h : x.run s = (.ok a, s')) : s' = s := by
  have hs := hx s
  rw [h] at hs
  exact hs

theorem exists_parse_of_open {path : String} {f : DataFile}
    (h : (Storing.open d path).run s = (.ok (some f), s')) :
    ∃ text, DataFile.parse path text = .ok f := by
  unfold Storing.open at h
  rw [run_bind, run_get] at h
  dsimp only at h
  split at h
  next text _ =>
    have hparse := (Prod.mk.inj h).1
    cases hp : DataFile.parse path text with
    | error e => simp [hp, Except.map] at hparse
    | ok g =>
      obtain rfl : g = f := by simpa [hp, Except.map] using hparse
      exact ⟨text, hp⟩
  · exact absurd (Prod.mk.inj h).1 (by simp)
  · exact absurd (Prod.mk.inj h).1 (by simp)

theorem path_of_open {path : String} {f : DataFile}
    (h : (Storing.open d path).run s = (.ok (some f), s')) : f.path = path := by
  obtain ⟨text, hp⟩ := exists_parse_of_open h
  exact DataFile.path_of_parse hp

/-- The file that a write starts from stands at the path, and all it holds is data. -/
theorem start_of_open {path : String} {old : Option DataFile}
    (h : (Storing.open d path).run s = (.ok old, s')) :
    (old.getD (.empty path)).path = path ∧ (old.getD (.empty path)).isData = true := by
  cases old with
  | none => exact ⟨rfl, DataFile.isData_empty path⟩
  | some f =>
    obtain ⟨text, hp⟩ := exists_parse_of_open h
    exact ⟨DataFile.path_of_parse hp, DataFile.isData_of_parse hp⟩

theorem undone_assignRaw (hd : d.Lawful) {v : Value}
    (h : (assignRaw d n key v).run s = (.error e, s')) : s.Undone d n s' e := by
  rcases run_bind_eq_error.mp h with hlevel | ⟨l, t, hlevel, hrest⟩
  · exact (looks_level n).undone hlevel
  obtain ⟨hl, rfl⟩ := level_eq_ok hlevel
  rcases run_bind_eq_error.mp hrest with hopen | ⟨old, u, hopen, hwrite⟩
  · exact (looks_open d l.path).undone hopen
  obtain rfl := (looks_open d l.path).eq hopen
  rcases run_bind_eq_error.mp hwrite with hsave | ⟨_, u, -, hput⟩
  · exact undone_save hd hl ((DataFile.path_set _ _ _).trans (start_of_open hopen).1) hsave
  · exact absurd (Prod.mk.inj hput).1 (by simp)

theorem undone_erase (hd : d.Lawful) (h : (erase d n key).run s = (.error e, s')) :
    s.Undone d n s' e := by
  rcases run_bind_eq_error.mp h with hlevel | ⟨l, t, hlevel, hrest⟩
  · exact (looks_level n).undone hlevel
  obtain ⟨hl, rfl⟩ := level_eq_ok hlevel
  rcases run_bind_eq_error.mp hrest with hopen | ⟨old, u, hopen, hwrite⟩
  · exact (looks_open d l.path).undone hopen
  obtain rfl := (looks_open d l.path).eq hopen
  cases old with
  | none => exact absurd (Prod.mk.inj hwrite).1 (by simp)
  | some f =>
    simp only at hwrite
    split at hwrite
    · exact absurd (Prod.mk.inj hwrite).1 (by simp)
    · rcases run_bind_eq_error.mp hwrite with hsave | ⟨_, u, -, hput⟩
      · exact undone_save hd hl ((f.path_erase key).trans (path_of_open hopen)) hsave
      · exact absurd (Prod.mk.inj hput).1 (by simp)

/-- Encrypting uses up random bytes, and that is all. -/
theorem entropy_storedForm (d : Disk) (l : CompiledLevel) (v : Value) (s : Store) :
    ∃ entropy, ((storedForm d l v).run s).2 = { s with entropy } := by
  unfold storedForm
  split
  · exact ⟨s.entropy, rfl⟩
  next keys _ =>
    rw [run_bind]
    rcases hk : (loadKey d keys).run s with ⟨e | key, t⟩
    · have ht := looks_loadKey d keys s
      rw [hk] at ht
      exact ⟨s.entropy, ht⟩
    · obtain rfl := (looks_loadKey d keys).eq hk
      simp only [run_bind, run_get]
      cases Envelope.encrypt key (Compiled.plaintext v) t.entropy with
      | error e => exact ⟨t.entropy, rfl⟩
      | ok r => exact ⟨r.2, rfl⟩

theorem undone_assign (hd : d.Lawful) {v : Value}
    (h : (assign d n key v).run s = (.error e, s')) : s.Undone d n s' e := by
  rcases run_bind_eq_error.mp h with hlevel | ⟨l, t, hlevel, hrest⟩
  · exact (looks_level n).undone hlevel
  obtain ⟨-, rfl⟩ := level_eq_ok hlevel
  obtain ⟨entropy, hstored⟩ := entropy_storedForm d l v t
  rcases run_bind_eq_error.mp hrest with hrun | ⟨stored, u, hrun, hwrite⟩
  · rw [hrun] at hstored
    obtain rfl : s' = _ := hstored
    exact ⟨rfl, .inl (.refl _)⟩
  · rw [hrun] at hstored
    obtain rfl : u = _ := hstored
    exact ⟨(undone_assignRaw hd hwrite).compiled, (undone_assignRaw hd hwrite).files⟩

end Storing

end Cascade
