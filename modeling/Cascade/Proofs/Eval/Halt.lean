import Cascade.Proofs.Eval.Frame
/-!
Evaluations come to an end if their requests do. The syntax that is evaluated gets smaller from step
to step, and a lack of depth comes from requests only; the cells of a copy could give it back later,
but they never get it. What a request may need in order to end is an invariant of the host, which
every request keeps. The functions of modules are left out: no bound is known for calls of them.
-/
namespace Cascade

variable {η : Type}

/-- No cell of a copy that is there has kept a lack of depth. -/
structure Machine.Sane (copy : Nat) (m : Machine η) : Prop where
  lt : copy < m.copies
  cell : ∀ n, m.cell copy n ≠ .failed .exhausted

namespace Machine.Sane

variable {copy : Nat} {m m' : Machine η}

theorem of_after (h : m.Sane copy) (ha : m.After ∅ m') : m'.Sane copy where
  lt := h.lt.trans_le ha.copies_le
  cell n := by
    rw [ha.cells copy h.lt (Set.notMem_empty _)]
    exact h.cell n

theorem of_cells (h : m.Sane copy) (hcopies : m'.copies = m.copies)
    (hcells : ∀ n, m'.cell copy n = m.cell copy n) : m'.Sane copy :=
  ⟨hcopies ▸ h.lt, fun n => hcells n ▸ h.cell n⟩

theorem setCell (h : m.Sane copy) (node : Nat) {s : CellState} (hs : s ≠ .failed .exhausted) :
    (m.setCell copy node s).Sane copy where
  lt := h.lt
  cell n := by
    rw [Machine.cell_setCell]
    split
    · exact hs
    · exact h.cell n

end Machine.Sane

theorem CellState.ofOutcome_ne_exhausted {o : Outcome} (h : o ≠ .error Bounded.exhausted) :
    ofOutcome o ≠ .failed .exhausted := by
  rcases o with (v | f) | v
  · simp [ofOutcome]
  · simp only [ofOutcome, ne_eq, failed.injEq]
    rintro rfl
    exact h rfl
  · simp [ofOutcome]

/-- Where the host is as it should be, `x` comes to an end and leaves it so. -/
def Halts (I : η → Prop) (copy : Nat) {ε α : Type} [Bounded ε]
    (x : ExceptT ε (StateM (Machine η)) α) : Prop :=
  ∀ m : Machine η, I m.host → m.Sane copy → (x.run m).1 ≠ .error Bounded.exhausted ∧
    I (x.run m).2.host ∧ (x.run m).2.Sane copy

/-- A resolver that answers every request, and knows no function. -/
structure Resolver.Answers (I : η → Prop) (r : Resolver η) : Prop where
  resolveClass {m : Machine η} (name : String) : I m.host →
    ((r.resolveClass name).run m).1 ≠ .error .exhausted ∧ I ((r.resolveClass name).run m).2.host
  resolveFunction {m : Machine η} (name : String) : I m.host →
    (((r.resolveFunction name).run m).1 = .ok none ∨
      ∃ e, ((r.resolveFunction name).run m).1 = .error (.error e)) ∧
    I ((r.resolveFunction name).run m).2.host
  registerSource {h : η} (name : String) (level : Nat) : I h →
    I (r.registerSource .property name level h)

namespace Halts

variable {I : η → Prop} {copy : Nat} {ε ε' α β : Type} [Bounded ε] [Bounded ε']
  {x : ExceptT ε (StateM (Machine η)) α}

theorem pure (a : α) : Halts I copy (Pure.pure a : ExceptT ε (StateM (Machine η)) α) :=
  fun _ hi hs => ⟨nofun, hi, hs⟩

theorem throw {e : ε} (he : e ≠ Bounded.exhausted) :
    Halts I copy (throw e : ExceptT ε (StateM (Machine η)) α) :=
  fun _ hi hs => ⟨fun h => he (Except.error.inj h), hi, hs⟩

theorem bind (hx : Halts I copy x) {f : α → ExceptT ε (StateM (Machine η)) β}
    (hf : ∀ a, Halts I copy (f a)) : Halts I copy (x >>= f) := by
  intro m hi hs
  obtain ⟨hne, hi', hs'⟩ := hx m hi hs
  rw [run_bind]
  rcases hrun : x.run m with ⟨e | a, m'⟩
  · rw [hrun] at hne hi' hs'
    refine ⟨fun h => hne ?_, hi', hs'⟩
    exact congrArg Except.error (Except.error.inj h)
  · rw [hrun] at hi' hs'
    exact hf a m' hi' hs'

theorem ending {g : Except ε α → Except ε' β} (hg : KeepsExhausted g) (hx : Halts I copy x) :
    Halts I copy (Cascade.ending g x) := by
  intro m hi hs
  obtain ⟨hne, hrest⟩ := hx m hi hs
  exact ⟨fun h => hne ((hg _).mp h), hrest⟩

theorem memo {x : Eval η Value} (node : Nat) (hx : Halts I copy x) :
    Halts I copy (Eval.memo copy node x) := by
  intro m hi hs
  rw [run_memo]
  cases hc : m.cell copy node with
  | unresolved =>
    obtain ⟨hne, hi', hs'⟩ := hx (m.setCell copy node .resolving) hi (hs.setCell node nofun)
    exact ⟨hne, hi', hs'.setCell node (CellState.ofOutcome_ne_exhausted hne)⟩
  | resolving => exact ⟨nofun, hi, hs⟩
  | resolved v => exact ⟨nofun, hi, hs⟩
  | returned v => exact ⟨nofun, hi, hs⟩
  | failed f =>
    refine ⟨fun h => hs.cell node ?_, hi, hs⟩
    rw [hc]
    exact congrArg CellState.failed (Interrupt.fault.inj (Except.error.inj h))

/-- A request leaves the cells of others as they are. -/
theorem of_spares {Q : Course η} {x : Act η α} (hspares : Spares Q ∅ x)
    (h : ∀ m : Machine η, I m.host → (x.run m).1 ≠ .error .exhausted ∧ I (x.run m).2.host) :
    Halts I copy x :=
  fun m hi hs => ⟨(h m hi).1, (h m hi).2, hs.of_after (hspares m).after⟩

/-- What changes neither the host nor any cell. -/
theorem modify {f : Machine η → Machine η}
    (h : ∀ m, I m.host → I (f m).host ∧ (f m).copies = m.copies ∧
      ∀ n, (f m).cell copy n = m.cell copy n) :
    Halts I copy (modify f : ExceptT ε (StateM (Machine η)) PUnit) :=
  fun m hi hs => ⟨nofun, (h m hi).1, hs.of_cells (h m hi).2.1 (h m hi).2.2⟩

end Halts

variable {I : η → Prop} {Q : Course η} {r : Resolver η}

/-- A call finds no function. -/
theorem Resolver.Answers.callFunction (hr : r.Answers I) (hspares : r.Spares Q) {scope : Scope}
    {copy : Nat} (name : String) (x : Eval η (List Value)) :
    Halts I copy (Cascade.callFunction ⟨r, scope, copy⟩ name x) := by
  intro m hi hs
  obtain ⟨hresult, hi'⟩ := hr.resolveFunction name hi
  have hs' := hs.of_after (hspares.resolveFunction name m).after
  rw [callFunction_eq, run_bind, run_ending]
  rcases hresult with hnone | ⟨e, he⟩
  · rw [hnone]
    exact ⟨nofun, hi', hs'⟩
  · rw [he]
    exact ⟨nofun, hi', hs'⟩

/-- An evaluation comes to an end if its requests do. -/
theorem Uniform.halts {k : Scope.Kind} {ε α : Type} [Bounded ε] {x : Program ε α}
    (h : Uniform k x) (hr : r.Answers I) (hspares : r.Spares Q) {s : Spot} (hk : s.scope.kind = k) :
    Halts I s.copy (x η (s.env r)) := by
  induction h with
  | pure a => exact .pure a
  | throw e he => exact .throw he
  | bind _ _ hx hf => exact hx.bind hf
  | ending _ hg hx => exact hx.ending hg
  | memo node _ hx => exact hx.memo node
  | look _ hf => exact fun m hi hs => hf ((s.env r).sight m) m hi hs
  | shown name =>
    intro m hi hs
    obtain ⟨hne, hi'⟩ := hr.resolveClass name hi
    rw [run_shown]
    exact ⟨Fault.map_ne_exhausted.mpr hne, hi', hs.of_after (hspares.resolveClass name m).after⟩
  | resolveFunction name =>
    refine .of_spares (hspares.resolveFunction name) fun m hi => ?_
    obtain ⟨hnone | ⟨e, he⟩, hi'⟩ := hr.resolveFunction name hi
    · exact ⟨hnone ▸ nofun, hi'⟩
    · exact ⟨he ▸ nofun, hi'⟩
  | call name _ _ => exact hr.callFunction hspares name _
  | registerSource name level =>
    exact .modify fun m hi => ⟨hr.registerSource name level hi, rfl, fun _ => rfl⟩
  | setFrame name v _ => exact .modify fun m hi => ⟨hi, rfl, fun _ => rfl⟩
  | update change _ _ =>
    exact .modify fun m hi => ⟨by rwa [Machine.host_updateInstance], by simp, fun _ => by simp⟩
  | congr _ heq hx =>
    rw [heq η (s.env r) hk]
    exact hx

/-- The resolution of a new instance comes to an end if its requests do. -/
theorem Resolver.Answers.resolveNew (hr : r.Answers I) (hspares : r.Spares Q) (d : Definition)
    (title : Option String) (seeds : Option (Table String Seed)) {m : Machine η} {host : η}
    (hi : I host) :
    let q := (resolveInstance r m.instances.length).run
      { m.withInstance d title seeds with host := host }
    q.1 ≠ .error .exhausted ∧ I q.2.host := by
  have hsteps := (uniform_instanceSteps (Instance.create d title seeds 0)).halts hr hspares
    (s := ⟨.object m.instances.length, m.copies⟩) rfl
  have hsane : Machine.Sane m.copies { m.withInstance d title seeds with host := host } := by
    refine ⟨Nat.lt_succ_self _, fun n => ?_⟩
    have hnew : Machine.cell { m.withInstance d title seeds with host := host } m.copies n =
        .unresolved := m.cell_newCopy_self n
    rw [hnew]
    exact nofun
  rw [run_resolveInstance_new]
  obtain ⟨hne, hi', -⟩ := hsteps _ hi hsane
  exact ⟨hne, hi'⟩

end Cascade
