import Cascade.Files.Basic
/-!
What is written to a file is what is read from it.
-/
namespace Cascade

/-- What fails can be taken apart where it was put together. -/
theorem bind_eq_ok {ε α β : Type} {x : Except ε α} {f : α → Except ε β} {b : β} :
    x >>= f = .ok b ↔ ∃ a, x = .ok a ∧ f a = .ok b := by
  cases x with
  | error e => exact ⟨fun h => absurd h nofun, fun ⟨_, h, _⟩ => absurd h nofun⟩
  | ok a => exact ⟨fun h => ⟨a, rfl, h⟩, fun ⟨_, h, hf⟩ => Except.ok.inj h ▸ hf⟩

namespace Files

variable {files files' : Files}

theorem entry?_put_of_ne {place target : List String} (h : place ≠ target) (e : Entry) :
    entry? (files.put target e) place = files.entry? place := by
  cases place with
  | nil => rfl
  | cons piece place => simp [ entry?, put, Table.get?_set_ne _ (Ne.symm h)]

theorem entry?_put_self {target : List String} (h : target ≠ []) (e : Entry) :
    entry? (files.put target e) target = some e := by
  cases target with
  | nil => exact absurd rfl h
  | cons piece target => simp [ entry?, put]

/-- A path never leads through a place that is no directory, so a change there leaves its way as it
is. -/
theorem walk_put {target : List String} (hd : ∀ t, files.entry? target ≠ some (.directory t))
    (e : Entry) {place pieces found : List String} (h : files.walk place pieces = .ok found) :
    (files.put target e).walk place pieces = .ok found := by
  induction pieces generalizing place with
  | nil => exact h
  | cons piece rest ih =>
    rw [walk] at h ⊢
    cases hp : files.entry? place with
    | none => simp [hp] at h
    | some entry =>
      cases entry with
      | file content t => simp [hp] at h
      | directory t =>
        have hne : place ≠ target := by
          rintro rfl
          exact hd t hp
        simp only [hp] at h
        simp only [ entry?_put_of_ne hne, hp]
        split at h
        · exact ih h
        · split at h
          · exact absurd h (by simp)
          next hlong =>
            rw [if_neg hlong]
            exact ih h
        · exact ih h

theorem locate_put {target : List String} (hd : ∀ t, files.entry? target ≠ some (.directory t))
    (e : Entry) {path : String} {found : List String} (h : files.locate path = .ok found) :
    (files.put target e).locate path = .ok found := by
  unfold locate locatePieces at h ⊢
  split at h
  · exact absurd h (by simp)
  · split at h
    · exact absurd h (by simp)
    next h₁ h₂ =>
      simp only [h₁, h₂, Bool.false_eq_true, ↓reduceIte]
      exact walk_put hd e h

theorem exists_of_writeAt {path : String} {content : Content} {modified : Nat}
    (h : files.writeAt path content modified = .ok files') :
    ∃ target, files.locate path = .ok target ∧
      (∀ t, files.entry? target ≠ some (.directory t)) ∧
        files' = files.put target (.file content modified) := by
  obtain ⟨target, hl, h⟩ := bind_eq_ok.mp h
  split at h
  · exact absurd h nofun
  next hd => exact ⟨target, hl, hd, (Except.ok.inj h).symm⟩

@[simp] theorem entry?_tick (files : Files) (place : List String) :
    files.tick.entry? place = files.entry? place := by
  cases place <;> rfl

@[simp] theorem walk_tick (files : Files) (place pieces : List String) :
    files.tick.walk place pieces = files.walk place pieces := by
  induction pieces generalizing place with
  | nil => rfl
  | cons piece rest ih => simp only [walk, entry?_tick, ih]

@[simp] theorem readText_tick (files : Files) (path : String) :
    files.tick.readText path = files.readText path := by
  simp only [readText, read, stat, locate, locatePieces, walk_tick, entry?_tick]
  rfl

/-- A file can be read again as soon as it has been written. -/
theorem readText_of_write {path text : String} (h : files.write path (.text text) = .ok files') :
    files'.readText path = .ok text := by
  obtain ⟨written, hw, h⟩ := bind_eq_ok.mp h
  obtain ⟨target, hl, hd, rfl⟩ := exists_of_writeAt hw
  obtain rfl := Except.ok.inj h
  have hne : target ≠ [] := by
    rintro rfl
    exact hd 0 rfl
  rw [readText_tick]
  simp [readText, read, stat, locate_put hd _ hl, entry?_put_self hne, Bind.bind, Except.bind,
    pure, Except.pure, Content.text?]

@[simp] theorem locate_tick (files : Files) (path : String) :
    files.tick.locate path = files.locate path := by
  simp only [locate, locatePieces, walk_tick]
  rfl

/-- Nothing has changed but that some directories are new. -/
def Gains (files files' : Files) : Prop :=
  ∀ place, files'.entry? place = files.entry? place ∨
    files.entry? place = none ∧ ∃ t, files'.entry? place = some (.directory t)

theorem Gains.refl (files : Files) : files.Gains files := fun _ => .inl rfl

theorem Gains.trans {files'' : Files} (h : files.Gains files') (h' : files'.Gains files'') :
    files.Gains files'' := by
  intro place
  rcases h' place with he' | ⟨hnone, hnew⟩
  · rw [he']
    exact h place
  · rcases h place with he | ⟨-, t, ht⟩
    · exact .inr ⟨he.symm.trans hnone, hnew⟩
    · exact absurd (ht.symm.trans hnone) (by simp)

theorem gains_makeDirectory {path : String} (h : files.makeDirectory path = .ok files') :
    files.Gains files' := by
  obtain ⟨target, _, h⟩ := bind_eq_ok.mp h
  split at h
  · exact absurd h nofun
  next hnone =>
    obtain rfl := Except.ok.inj h
    intro place
    rw [ entry?_tick]
    by_cases hp : place = target
    · subst hp
      refine .inr ⟨hnone, _, entry?_put_self ?_ _⟩
      rintro rfl
      exact absurd hnone (by simp [ entry?])
    · exact .inl (entry?_put_of_ne hp _)

/-- What making one directory does over and over, making a directory and all above it does. -/
theorem makeDirectoriesWithin_induction {R : Files → Files → Prop} (refl : ∀ a, R a a)
    (trans : ∀ a b c, R a b → R b c → R a c)
    (make : ∀ a b path, a.makeDirectory path = .ok b → R a b) {steps : Nat} {path : String}
    (h : files.makeDirectoriesWithin steps path = .ok files') : R files files' := by
  have hensure : ∀ a b path, a.ensureDirectory path = .ok b → R a b := by
    intro a b path h
    unfold ensureDirectory at h
    split at h
    next hm =>
      obtain rfl := Except.ok.inj h
      exact make a _ path hm
    · split at h
      · obtain rfl := Except.ok.inj h
        exact refl a
      · exact absurd h (by simp)
  induction steps generalizing path files' with
  | zero => exact absurd h (by simp [makeDirectoriesWithin])
  | succ steps ih =>
    unfold makeDirectoriesWithin at h
    split at h
    · obtain rfl := Except.ok.inj h
      exact refl files
    · split at h
      · split at h
        · exact absurd h nofun
        next parent _ =>
          obtain ⟨made, hw, h⟩ := bind_eq_ok.mp h
          exact trans files made files' (ih hw) (hensure made files' path h)
      · exact hensure files files' path h

theorem gains_makeDirectoriesWithin {steps : Nat} {path : String}
    (h : files.makeDirectoriesWithin steps path = .ok files') : files.Gains files' :=
  makeDirectoriesWithin_induction Gains.refl (fun _ _ _ => Gains.trans)
    (fun _ _ _ => gains_makeDirectory) h

/-- A write changes no entry but that of its path. -/
theorem exists_of_write {path : String} {content : Content}
    (h : files.write path content = .ok files') : ∃ target, files'.locate path = .ok target ∧
      ∀ place, place ≠ target → files'.entry? place = files.entry? place := by
  obtain ⟨written, hw, h⟩ := bind_eq_ok.mp h
  obtain ⟨target, hl, hd, rfl⟩ := exists_of_writeAt hw
  obtain rfl := Except.ok.inj h
  refine ⟨target, ?_, fun place hp => ?_⟩
  · rw [locate_tick]
    exact locate_put hd _ hl
  · rw [ entry?_tick]
    exact entry?_put_of_ne hp _

end Files
end Cascade
