/-!
How programs run that may fail and keep what they changed until then.
-/
namespace Cascade

variable {σ ε α β : Type}

theorem run_bind (x : ExceptT ε (StateM σ) α) (f : α → ExceptT ε (StateM σ) β) (s : σ) :
    (x >>= f).run s = match x.run s with
      | (.ok a, s') => (f a).run s'
      | (.error e, s') => (.error e, s') := by
  change (ExceptT.bindCont f (x.run s).1) (x.run s).2 = _
  rcases x.run s with ⟨a | e, s'⟩ <;> rfl

theorem run_bind_const (x : ExceptT ε (StateM σ) α) (b : β) (s : σ) :
    (x >>= fun _ => pure b).run s = ((x.run s).1.map fun _ => b, (x.run s).2) := by
  rw [run_bind]
  rcases x.run s with ⟨e | a, s'⟩ <;> rfl

theorem run_bind_eq_ok {x : ExceptT ε (StateM σ) α} {f : α → ExceptT ε (StateM σ) β} {b : β}
    {s s' : σ} : (x >>= f).run s = (.ok b, s') ↔
      ∃ a t, x.run s = (.ok a, t) ∧ (f a).run t = (.ok b, s') := by
  rw [run_bind]
  rcases x.run s with ⟨e | a, t⟩
  · constructor
    · exact fun h => absurd (Prod.mk.inj h).1 nofun
    · exact fun ⟨_, _, h, _⟩ => absurd (Prod.mk.inj h).1 nofun
  · constructor
    · exact fun h => ⟨a, t, rfl, h⟩
    · rintro ⟨a', t', h, hf⟩
      obtain ⟨ha, rfl⟩ := Prod.mk.inj h
      obtain rfl := Except.ok.inj ha
      exact hf

theorem run_bind_eq_error {x : ExceptT ε (StateM σ) α} {f : α → ExceptT ε (StateM σ) β} {e : ε}
    {s s' : σ} : (x >>= f).run s = (.error e, s') ↔
      x.run s = (.error e, s') ∨ ∃ a t, x.run s = (.ok a, t) ∧ (f a).run t = (.error e, s') := by
  rw [run_bind]
  rcases x.run s with ⟨e' | a, t⟩
  · constructor
    · intro h
      obtain ⟨he, rfl⟩ := Prod.mk.inj h
      exact .inl (by rw [Except.error.inj he])
    · rintro (h | ⟨a, t', h, -⟩)
      · obtain ⟨he, rfl⟩ := Prod.mk.inj h
        rw [Except.error.inj he]
      · exact absurd (Prod.mk.inj h).1 (by simp)
  · constructor
    · exact fun h => .inr ⟨a, t, rfl, h⟩
    · rintro (h | ⟨a', t', h, hf⟩)
      · exact absurd (Prod.mk.inj h).1 (by simp)
      · obtain ⟨ha, rfl⟩ := Prod.mk.inj h
        obtain rfl := Except.ok.inj ha
        exact hf

theorem run_get (s : σ) : (get : ExceptT ε (StateM σ) σ).run s = (.ok s, s) := rfl

theorem run_modify (f : σ → σ) (s : σ) :
    (modify f : ExceptT ε (StateM σ) PUnit).run s = (.ok ⟨⟩, f s) := rfl

theorem run_tryCatch (x : ExceptT ε (StateM σ) α) (f : ε → ExceptT ε (StateM σ) α) (s : σ) :
    (tryCatch x f).run s = match x.run s with
      | (.ok a, s') => (.ok a, s')
      | (.error e, s') => (f e).run s' := by
  change (match (x.run s).1 with
    | .ok a => pure (.ok a)
    | .error e => f e : StateM σ (Except ε α)) (x.run s).2 = _
  rcases x.run s with ⟨e | a, s'⟩ <;> rfl

/-- The outcome of `x` as a value. -/
def outcome (x : ExceptT ε (StateM σ) α) : ExceptT ε (StateM σ) (Except ε α) :=
  fun s => (.ok (x.run s).1, (x.run s).2)

theorem run_outcome_bind (x : ExceptT ε (StateM σ) α) (f : Except ε α → ExceptT ε (StateM σ) β)
    (s : σ) : (outcome x >>= f).run s = (f (x.run s).1).run (x.run s).2 := rfl

/-- What holds of the state before `x` holds after it, however it ends. -/
def Maintains (P : σ → Prop) (x : ExceptT ε (StateM σ) α) : Prop := ∀ s, P s → P (x.run s).2

namespace Maintains

variable {P : σ → Prop} {x : ExceptT ε (StateM σ) α}

theorem pure (a : α) : Maintains P (Pure.pure a : ExceptT ε (StateM σ) α) := fun _ h => h

theorem throw (e : ε) : Maintains P (throw e : ExceptT ε (StateM σ) α) := fun _ h => h

theorem bind (hx : Maintains P x) {f : α → ExceptT ε (StateM σ) β} (hf : ∀ a, Maintains P (f a)) :
    Maintains P (x >>= f) := by
  intro s h
  have hafter := hx s h
  rw [run_bind]
  rcases hrun : x.run s with ⟨e | a, s'⟩
  · rw [hrun] at hafter
    exact hafter
  · rw [hrun] at hafter
    exact hf a s' hafter

theorem look {f : σ → ExceptT ε (StateM σ) β} (hf : ∀ s, P s → Maintains P (f s)) :
    Maintains P (get >>= f) := by
  intro s h
  rw [run_bind, run_get]
  exact hf s h s h

theorem modify {f : σ → σ} (hf : ∀ s, P s → P (f s)) :
    Maintains P (modify f : ExceptT ε (StateM σ) PUnit) := hf

end Maintains

end Cascade
