import Cascade.Proofs.Eval.Instance
/-!
Changes of a host that evaluations do not notice. A mask changes a host behind the back of whatever runs
on it. If the requests of an evaluation do the same with the mask and without it, but for the mask
itself, then so does the evaluation: all else that it looks at is not the host's.
-/
namespace Cascade

variable {η : Type}

/-- A change of hosts, and the hosts that it is made for. -/
structure Mask (η : Type) where
  map : η → η
  Good : η → Prop

namespace Mask

variable (M : Mask η)

def machine (m : Machine η) : Machine η := { m with host := M.map m.host }

@[simp] theorem host_machine (m : Machine η) : (M.machine m).host = M.map m.host := rfl

theorem setCell_machine (m : Machine η) (copy node : Nat) (s : CellState) :
    (M.machine m).setCell copy node s = M.machine (m.setCell copy node s) := rfl

theorem updateInstance_machine (m : Machine η) (i : Nat) (change : Instance → Instance) :
    (M.machine m).updateInstance i change = M.machine (m.updateInstance i change) := by
  have hsame : (M.machine m).instances.get? i = m.instances.get? i := rfl
  unfold Machine.updateInstance
  rw [hsame]
  cases m.instances.get? i <;> rfl

end Mask

/-- Under the mask `x` does what `y` does without it. -/
def Overlooks (M : Mask η) {ε α : Type} (x y : ExceptT ε (StateM (Machine η)) α) : Prop :=
  ∀ m : Machine η, M.Good m.host →
    x.run (M.machine m) = ((y.run m).1, M.machine (y.run m).2) ∧ M.Good (y.run m).2.host

namespace Overlooks

variable {M : Mask η} {ε ε' α β : Type} {x y : ExceptT ε (StateM (Machine η)) α}

theorem pure (a : α) : Overlooks M (Pure.pure a : ExceptT ε (StateM (Machine η)) α) (Pure.pure a) :=
  fun _ hm => ⟨rfl, hm⟩

theorem throw (e : ε) : Overlooks M (throw e : ExceptT ε (StateM (Machine η)) α) (throw e) :=
  fun _ hm => ⟨rfl, hm⟩

theorem bind (hx : Overlooks M x y) {f g : α → ExceptT ε (StateM (Machine η)) β}
    (hf : ∀ a, Overlooks M (f a) (g a)) : Overlooks M (x >>= f) (y >>= g) := by
  intro m hm
  obtain ⟨hrun, hgood⟩ := hx m hm
  rw [run_bind, run_bind, hrun]
  rcases hy : y.run m with ⟨e | a, m'⟩
  · rw [hy] at hgood
    exact ⟨rfl, hgood⟩
  · rw [hy] at hgood
    exact hf a m' hgood

theorem ending (g : Except ε α → Except ε' β) (hx : Overlooks M x y) :
    Overlooks M (Cascade.ending g x) (Cascade.ending g y) := by
  intro m hm
  obtain ⟨hrun, hgood⟩ := hx m hm
  rw [run_ending, run_ending, hrun]
  exact ⟨rfl, hgood⟩

theorem attempt {x y : Act η α} (hx : Overlooks M x y) :
    Overlooks M (Act.attempt x) (Act.attempt y) :=
  hx.ending .ok

theorem mapError {x y : Act η α} (change : EvalError → EvalError) (hx : Overlooks M x y) :
    Overlooks M (Act.mapError change x) (Act.mapError change y) := by
  intro m hm
  obtain ⟨hrun, hgood⟩ := hx m hm
  rw [run_mapError, run_mapError, hrun]
  exact ⟨rfl, hgood⟩

theorem look {f g : Machine η → ExceptT ε (StateM (Machine η)) α}
    (hf : ∀ m, M.Good m.host → Overlooks M (f (M.machine m)) (g m)) :
    Overlooks M (get >>= f) (get >>= g) :=
  fun m hm => hf m hm m hm

theorem modify {f g : Machine η → Machine η}
    (h : ∀ m, M.Good m.host → f (M.machine m) = M.machine (g m) ∧ M.Good (g m).host) :
    Overlooks M (modify f : ExceptT ε (StateM (Machine η)) PUnit) (modify g) := by
  intro m hm
  obtain ⟨hf, hgood⟩ := h m hm
  rw [run_modify, run_modify, hf]
  exact ⟨rfl, hgood⟩

theorem memo (copy node : Nat) {x y : Eval η Value} (hx : Overlooks M x y) :
    Overlooks M (Eval.memo copy node x) (Eval.memo copy node y) := by
  intro m hm
  have hsame : (M.machine m).cell copy node = m.cell copy node := rfl
  rw [run_memo, run_memo, hsame]
  rcases (m.cell copy node).begin with ⟨_ | o, s⟩
  · obtain ⟨hrun, hgood⟩ := hx (m.setCell copy node s) hm
    simp only [Mask.setCell_machine, hrun]
    exact ⟨trivial, hgood⟩
  · exact ⟨rfl, hm⟩

end Overlooks

/-- A resolver whose requests do not notice a mask. -/
structure Resolver.Overlooks (M : Mask η) (r : Resolver η) : Prop where
  resolveClass (name : String) : Cascade.Overlooks M (r.resolveClass name) (r.resolveClass name)
  resolveFunction (name : String) :
    Cascade.Overlooks M (r.resolveFunction name) (r.resolveFunction name)
  invoke (d : Definition) (args : List Value) : Cascade.Overlooks M (r.invoke d args) (r.invoke d args)
  global? {h : η} : M.Good h → r.global? (M.map h) = r.global? h
  lookupGlobal {h : η} : M.Good h → r.lookupGlobal (M.map h) = r.lookupGlobal h
  registerSource (name : String) (level : Nat) {h : η} : M.Good h →
    r.registerSource .property name level (M.map h) = M.map (r.registerSource .property name level h) ∧
      M.Good (r.registerSource .property name level h)

variable {M : Mask η} {r : Resolver η}

/-- What an evaluation can look at is the same under a mask. -/
theorem Resolver.Overlooks.sight (hr : r.Overlooks M) (s : Spot) {m : Machine η}
    (hm : M.Good m.host) : (s.env r).sight (M.machine m) = (s.env r).sight m := by
  have hglobal : (s.env r).resolver.global? (M.map m.host) = (s.env r).resolver.global? m.host :=
    hr.global? hm
  have hlookup : (s.env r).resolver.lookupGlobal (M.map m.host) =
      (s.env r).resolver.lookupGlobal m.host := hr.lookupGlobal hm
  simp only [Env.sight, Mask.host_machine, hglobal, hlookup]
  cases s.scope <;> rfl

/-- An evaluation does not notice a mask if its requests do not. -/
theorem Uniform.overlooks {k : Scope.Kind} {ε α : Type} [Bounded ε] {x : Program ε α}
    (h : Uniform k x) (hr : r.Overlooks M) {s : Spot} (hk : s.scope.kind = k) :
    Overlooks M (x η (s.env r)) (x η (s.env r)) := by
  induction h with
  | pure a => exact .pure a
  | throw e _ => exact .throw e
  | bind _ _ hx hf => exact hx.bind hf
  | ending _ _ hx => exact hx.ending _
  | memo node _ hx => exact hx.memo s.copy node
  | look _ hf =>
    refine .look fun m hm => ?_
    rw [hr.sight s hm]
    exact hf _
  | shown name =>
    -- The view is taken of the instance, not of the host.
    intro m hm
    obtain ⟨hrun, hgood⟩ := hr.resolveClass name m hm
    rw [run_shown, run_shown]
    change (((r.resolveClass name).run (M.machine m)).1.map
      ((r.resolveClass name).run (M.machine m)).2.view?,
      ((r.resolveClass name).run (M.machine m)).2) = _ ∧ _
    rw [hrun]
    exact ⟨rfl, hgood⟩
  | resolveFunction name => exact hr.resolveFunction name
  | call name _ hx =>
    simp only [callFunction_eq]
    refine .bind (.ending _ (hr.resolveFunction name)) fun found => ?_
    cases found with
    | none => exact .throw _
    | some d => exact .bind hx fun args => .ending _ (.ending _ (hr.invoke d args))
  | registerSource name level =>
    refine .modify fun m hm => ?_
    obtain ⟨hregister, hgood⟩ := hr.registerSource name level hm
    exact ⟨congrArg (fun h => { m with host := h }) hregister, hgood⟩
  | setFrame name v _ => exact .modify fun m hm => ⟨rfl, hm⟩
  | update change _ _ =>
    exact .modify fun m hm =>
      ⟨M.updateInstance_machine m _ _, by rwa [Machine.host_updateInstance]⟩
  | congr _ heq hx =>
    rw [heq η (s.env r) hk]
    exact hx

namespace Resolver.Overlooks

theorem resolveInstance (hr : r.Overlooks M) (i : Nat) :
    Cascade.Overlooks M (Cascade.resolveInstance r i) (Cascade.resolveInstance r i) := by
  intro m hm
  cases hi : m.instance? i with
  | none =>
    have hrun : ∀ m' : Machine η, m'.instance? i = none →
        (Cascade.resolveInstance r i).run m' = (.ok (), m') := by
      intro m' h
      rw [Cascade.resolveInstance, run_bind, run_get]
      simp only [h]
      rfl
    rw [hrun m hi, hrun (M.machine m) hi]
    exact ⟨rfl, hm⟩
  | some inst =>
    rw [run_resolveInstance hi, run_resolveInstance (m := M.machine m) hi]
    exact (uniform_instanceSteps inst).overlooks hr (s := ⟨.object i, inst.copy⟩) rfl m hm

theorem invokeFunction (hr : r.Overlooks M) (d : Definition) (args : List Value) :
    Cascade.Overlooks M (Cascade.invokeFunction r d args) (Cascade.invokeFunction r d args) := by
  intro m hm
  cases hc : d.checkArity args.length with
  | error e =>
    rw [run_invokeFunction_error hc, run_invokeFunction_error hc]
    exact ⟨rfl, hm⟩
  | ok _ =>
    obtain ⟨hrun, hgood⟩ := (uniform_callSteps d args).overlooks hr (s := ⟨.frame, m.copies⟩) rfl
      { m.newCopy.2 with frame := [] } hm
    rw [run_invokeFunction hc, run_invokeFunction hc, run_withCall, run_withCall]
    change (((callSteps d args η ⟨r, .frame, m.copies⟩).run
      (M.machine { m.newCopy.2 with frame := [] })).1, _) = _ ∧ _
    refine ⟨?_, hgood⟩
    exact congrArg (fun q => (q.1, { q.2.dropCopy m.copies with frame := m.frame })) hrun

end Resolver.Overlooks
end Cascade
