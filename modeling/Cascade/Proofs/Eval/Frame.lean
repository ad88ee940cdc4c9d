import Cascade.Proofs.Eval.Instance
/-!
What evaluations leave alone. An evaluation changes what it owns, and whatever its requests do to the
host. So if no request touches what was there before it, no evaluation touches anything of others;
and if every request takes the host a step further, in a sense that is left open, so does every
evaluation.
-/
namespace Cascade

variable {η : Type}

/-- How hosts go on. -/
structure Course (η : Type) where
  Leads : η → η → Prop
  refl (h : η) : Leads h h
  trans {h h' h'' : η} : Leads h h' → Leads h' h'' → Leads h h''

/-- `m'` has come of `m`: the host has gone on, and only what is owned of `m` may have changed. -/
structure Machine.Since (Q : Course η) (own : Set Part) (m m' : Machine η) : Prop where
  host : Q.Leads m.host m'.host
  after : m.After own m'

/-- Wherever `x` is run, it leaves alone what is not owned. -/
def Spares (Q : Course η) (own : Set Part) {ε α : Type}
    (x : ExceptT ε (StateM (Machine η)) α) : Prop :=
  ∀ m : Machine η, m.Since Q own (x.run m).2

/-- A resolver whose requests spare whatever is there. -/
structure Resolver.Spares (Q : Course η) (r : Resolver η) : Prop where
  resolveClass (name : String) : Cascade.Spares Q ∅ (r.resolveClass name)
  resolveFunction (name : String) : Cascade.Spares Q ∅ (r.resolveFunction name)
  invoke (d : Definition) (args : List Value) : Cascade.Spares Q ∅ (r.invoke d args)
  registerSource (name : String) (level : Nat) (h : η) :
    Q.Leads h (r.registerSource .property name level h)

variable {Q : Course η} {own own' : Set Part} {m m' m'' : Machine η}

namespace Machine.Since

theorem of_after (hh : m'.host = m.host) (h : m.After own m') : m.Since Q own m' :=
  ⟨hh ▸ Q.refl m.host, h⟩

theorem of_host (own : Set Part) {h : η} (hQ : Q.Leads m.host h) :
    m.Since Q own { m with host := h } :=
  ⟨hQ, .of_host own m h⟩

theorem refl (own : Set Part) (m : Machine η) : m.Since Q own m := .of_host own (Q.refl m.host)

theorem trans (h : m.Since Q own m') (h' : m'.Since Q own m'') : m.Since Q own m'' :=
  ⟨Q.trans h.host h'.host, h.after.trans h'.after⟩

theorem mono (h : m.Since Q own m') (ho : own ⊆ own') : m.Since Q own' m' :=
  ⟨h.host, h.after.mono ho⟩

end Machine.Since

namespace Spares

variable {ε ε' α β : Type} {x : ExceptT ε (StateM (Machine η)) α}

theorem pure (a : α) : Spares Q own (Pure.pure a : ExceptT ε (StateM (Machine η)) α) := .refl own

theorem throw (e : ε) : Spares Q own (throw e : ExceptT ε (StateM (Machine η)) α) := .refl own

theorem bind (hx : Spares Q own x) {f : α → ExceptT ε (StateM (Machine η)) β}
    (hf : ∀ a, Spares Q own (f a)) : Spares Q own (x >>= f) := by
  intro m
  have h := hx m
  rw [run_bind]
  rcases hrun : x.run m with ⟨e | a, m'⟩
  · rw [hrun] at h
    exact h
  · rw [hrun] at h
    exact h.trans (hf a m')

theorem ending (g : Except ε α → Except ε' β) (hx : Spares Q own x) :
    Spares Q own (Cascade.ending g x) :=
  hx

theorem mono (hx : Spares Q own x) (ho : own ⊆ own') : Spares Q own' x := fun m => (hx m).mono ho

theorem look {f : Machine η → ExceptT ε (StateM (Machine η)) α} (hf : ∀ m, Spares Q own (f m)) :
    Spares Q own (get >>= f) :=
  fun m => hf m m

theorem attempt {x : Act η α} (hx : Spares Q own x) : Spares Q own (Act.attempt x) := hx

theorem ofAct {x : Act η α} (hx : Spares Q own x) : Spares Q own (Eval.ofAct x) := by
  intro m
  rw [run_ofAct]
  exact hx m

theorem succeeds {x : Act η α} (hx : Spares Q own x) : Spares Q own (Act.succeeds x) := by
  intro m
  rw [run_succeeds]
  exact hx m

theorem mapError {x : Act η α} (change : EvalError → EvalError) (hx : Spares Q own x) :
    Spares Q own (Act.mapError change x) := by
  intro m
  rw [run_mapError]
  exact hx m

end Spares

/-- An evaluation spares all that it does not own, if its requests do. -/
theorem Uniform.spares {k : Scope.Kind} {ε α : Type} [Bounded ε] {x : Program ε α}
    (h : Uniform k x) {r : Resolver η} (hr : r.Spares Q) {s : Spot} (hk : s.scope.kind = k) :
    Spares Q s.owns (x η (s.env r)) := by
  have hempty := Set.empty_subset s.owns
  induction h with
  | pure a => exact .pure a
  | throw e _ => exact .throw e
  | bind _ _ hx hf => exact hx.bind hf
  | ending _ _ hx => exact hx.ending _
  | memo node _ hx =>
    have hset : ∀ (m : Machine η) state, m.Since Q s.owns (m.setCell s.copy node state) :=
      fun m state => .of_after rfl (m.after_setCell (by simp [Spot.owns]) node state)
    intro m
    rw [run_memo]
    rcases hc : (m.cell (s.env r).copy node).begin with ⟨_ | o, state⟩
    · exact ((hset m state).trans (hx _)).trans (hset _ _)
    · exact .refl s.owns m
  | look _ hf => exact fun m => hf ((s.env r).sight m) m
  | shown name =>
    intro m
    rw [run_shown]
    exact (hr.resolveClass name m).mono hempty
  | resolveFunction name => exact (hr.resolveFunction name).mono hempty
  | call name _ hx =>
    simp only [callFunction_eq]
    refine .bind (.ending _ ((hr.resolveFunction name).mono hempty)) fun found => ?_
    cases found with
    | none => exact .throw _
    | some d =>
      exact .bind hx fun args => .ending _ (.ending _ ((hr.invoke d args).mono hempty))
  | registerSource name level => exact fun m => .of_host s.owns (hr.registerSource name level m.host)
  | setFrame name v hkind =>
    have hs := Scope.eq_frame (hk.trans hkind)
    have hown : Part.frame ∈ s.owns := by simp [Spot.owns, hs, Scope.part]
    exact fun m => .of_after rfl (m.after_frame hown _)
  | update change hkind _ =>
    have hs := Scope.eq_object (hk.trans hkind)
    have hown : Part.instance s.scope.number ∈ s.owns := by
      rw [Spot.owns, hs]
      simp [Scope.part, Scope.number]
    exact fun m => .of_after (m.host_updateInstance _ _) (m.after_updateInstance hown change)
  | congr _ heq hx =>
    rw [heq η (s.env r) hk]
    exact hx

namespace Resolver.Spares

variable {r : Resolver η}

/-- A new instance is resolved without touching what was there before it. The host may have taken
notice of the instance in between. -/
theorem resolveNew (hr : r.Spares Q) (d : Definition) (title : Option String)
    (seeds : Option (Table String Seed)) {host : η} (hQ : Q.Leads m.host host) :
    m.Since Q ∅ ((resolveInstance r m.instances.length).run
      { m.withInstance d title seeds with host := host }).2 := by
  have hsteps := (uniform_instanceSteps (Instance.create d title seeds 0)).spares hr
    (s := ⟨.object m.instances.length, m.copies⟩) rfl
    { m.withInstance d title seeds with host := host }
  rw [run_resolveInstance_new]
  have hnew (own : Set Part) : m.After own { m.withInstance d title seeds with host := host } :=
    (m.after_withInstance own).trans (.of_host own _ host)
  exact ⟨Q.trans hQ hsteps.host, ((hnew _).trans hsteps.after).of_resolve⟩

/-- So is the call of a function. -/
theorem invokeFunction (hr : r.Spares Q) (d : Definition) (args : List Value) :
    Cascade.Spares Q ∅ (Cascade.invokeFunction r d args) := by
  intro m
  cases hc : d.checkArity args.length with
  | error e =>
    rw [run_invokeFunction_error hc]
    exact .refl ∅ m
  | ok _ =>
    have hsteps := (uniform_callSteps d args).spares hr (s := ⟨.frame, m.copies⟩) rfl
      { m.newCopy.2 with frame := [] }
    rw [run_invokeFunction hc, run_withCall]
    exact ⟨hsteps.host, .of_call hsteps.after⟩

end Resolver.Spares

end Cascade
