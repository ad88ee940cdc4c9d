import Cascade.Proofs.Eval.Follow
/-!
The resolution of an instance and the call of a function follow those in another machine. Each
begins with a copy of its own, in which nothing is known, and a caller finds its own things
untouched.
-/
namespace Cascade

variable {η : Type}

theorem run_withCall {α : Type} (x : Nat → Act η α) (m : Machine η) :
    (withCall x).run m = (((x m.copies).run { m.newCopy.2 with frame := [] }).1,
      { ((x m.copies).run { m.newCopy.2 with frame := [] }).2.dropCopy m.copies with
        frame := m.frame }) := rfl

namespace Machine

theorem after_newCopy {own : Set Part} (m : Machine η) : m.After own m.newCopy.2 where
  instances _ _ _ := rfl
  cells c hc _ n := by
    have hne : m.copies ≠ c := by omega
    simp [hne]
  frame _ := rfl
  length_le := le_rfl
  copies_le := Nat.le_succ _
  numbered := id

/-- A machine with one more instance. -/
def withInstance (m : Machine η) (d : Definition) (title : Option String)
    (seeds : Option (Table String Seed)) : Machine η :=
  (m.newCopy.2.addInstance (Instance.create d title seeds m.copies)).2

variable {m : Machine η} {d : Definition} {title : Option String}
  {seeds : Option (Table String Seed)}

theorem run_createInstance (d : Definition) (title : Option String)
    (seeds : Option (Table String Seed)) (m : Machine η) :
    (createInstance d title seeds).run m =
      (.ok m.instances.length, m.withInstance d title seeds) := rfl

theorem instance?_withInstance (i : Nat) : (m.withInstance d title seeds).instance? i =
    if m.instances.length = i then some (Instance.create d title seeds m.copies)
    else m.instance? i := by
  simp [withInstance, addInstance, newCopy, instance?, Table.get?_set]

theorem instance?_withInstance_self : (m.withInstance d title seeds).instance?
    m.instances.length = some (Instance.create d title seeds m.copies) := by
  rw [instance?_withInstance, if_pos rfl]

theorem view?_withInstance_self : (m.withInstance d title seeds).view? m.instances.length =
    some (Instance.create d title seeds 0) := by
  rw [view?, instance?_withInstance_self]
  rfl

/-- Nothing is known in a new copy. -/
theorem cell_newCopy_self (m : Machine η) (node : Nat) :
    m.newCopy.2.cell m.copies node = .unresolved := by
  simp

theorem Numbered.length_withInstance (h : m.Numbered) :
    (m.withInstance d title seeds).instances.length = m.instances.length + 1 := by
  have hnone : m.instances.get? m.instances.length = none := by
    rw [← Option.not_isSome_iff_eq_none]
    intro hs
    exact (h _ hs).false
  simp [withInstance, addInstance, newCopy, Table.length_set, hnone]

theorem Numbered.withInstance (h : m.Numbered) : (m.withInstance d title seeds).Numbered := by
  intro i hi
  rw [h.length_withInstance]
  rw [instance?_withInstance] at hi
  split at hi
  · omega
  · exact (h i hi).trans (Nat.lt_succ_self _)

theorem after_withInstance (m : Machine η) (own : Set Part) :
    m.After own (m.withInstance d title seeds) where
  instances i hi _ := by
    have hne : m.instances.length ≠ i := by omega
    rw [instance?_withInstance, if_neg hne]
  cells c hc _ n := m.after_newCopy.cells c hc (Set.notMem_empty _) n
  frame _ := rfl
  length_le := by
    change m.instances.length ≤ (m.instances.set m.instances.length _).length
    rw [Table.length_set]
    split <;> omega
  copies_le := Nat.le_succ _
  numbered := Numbered.withInstance

/-- A new instance is resolved without touching what was there before. -/
theorem After.of_resolve {m' : Machine η}
    (h : m.After {.instance m.instances.length, .cells m.copies} m') : m.After ∅ m' where
  instances i hi _ := h.instances i hi (by simpa using hi.ne)
  cells c hc _ := h.cells c hc (by simpa using hc.ne)
  frame _ := h.frame (by simp)
  length_le := h.length_le
  copies_le := h.copies_le
  numbered := h.numbered

/-- A call leaves nothing behind. -/
theorem After.of_call {m' : Machine η}
    (h : Machine.After {.frame, .cells m.copies} { m.newCopy.2 with frame := [] } m') :
    m.After ∅ { m'.dropCopy m.copies with frame := m.frame } where
  instances i hi _ := h.instances i hi (by simp)
  cells c hc _ n := by
    have hne : m.copies ≠ c := by omega
    have hm := h.cells c (Nat.lt_succ_of_lt hc) (by simpa using hne.symm) n
    have hnew := m.after_newCopy.cells c hc (Set.notMem_empty _) n
    have hdrop : (m'.dropCopy m.copies).cell c n = m'.cell c n := by simp [hne]
    exact hdrop.trans (hm.trans hnew)
  frame _ := rfl
  length_le := h.length_le
  copies_le := (Nat.le_succ _).trans h.copies_le
  numbered hn := h.numbered hn

end Machine

section Fresh

variable {G : Guard η} {m m' : Machine η} {p p' : Machine Unit} {d : Definition}
  {title : Option String} {seeds : Option (Table String Seed)} {host : η}

/-- The next instance of each of two machines. -/
def Link.instances (G : Guard η) (m : Machine η) (p : Machine Unit) : Link η :=
  ⟨G, ⟨.object m.instances.length, m.copies⟩, ⟨.object p.instances.length, p.copies⟩⟩

/-- The next call in each of two machines. -/
def Link.calls (G : Guard η) (m : Machine η) (p : Machine Unit) : Link η :=
  ⟨G, ⟨.frame, m.copies⟩, ⟨.frame, p.copies⟩⟩

namespace Guard.Ready

/-- Machines in which an instance has just been made agree, also if the host has taken notice of it
in between. -/
theorem agree_instances (h : G.Ready m p)
    (hholds : G.Holds { m.withInstance d title seeds with host := host })
    (hopen : G.Open host m.instances.length) :
    (Link.instances G m p).Agree { m.withInstance d title seeds with host := host }
      (p.withInstance d title seeds) where
  ready := ⟨hholds, h.left.withInstance, h.right.withInstance⟩
  left_lt := Nat.lt_succ_self _
  right_lt := Nat.lt_succ_self _
  cells n := (m.cell_newCopy_self n).trans (p.cell_newCopy_self n).symm
  scope := ⟨(Nat.lt_succ_self _).trans_eq h.left.length_withInstance.symm,
    (Nat.lt_succ_self _).trans_eq h.right.length_withInstance.symm, hopen,
    Machine.view?_withInstance_self.trans Machine.view?_withInstance_self.symm⟩

theorem agree_calls (h : G.Ready m p) : (Link.calls G m p).Agree
    { m.newCopy.2 with frame := [] } { p.newCopy.2 with frame := [] } where
  ready := ⟨G.holds_of_host h.holds rfl le_rfl fun _ _ => rfl, h.left, h.right⟩
  left_lt := Nat.lt_succ_self _
  right_lt := Nat.lt_succ_self _
  cells n := (m.cell_newCopy_self n).trans (p.cell_newCopy_self n).symm
  scope := rfl

end Guard.Ready

/-- What two machines are like when an instance of each has been made and resolved. -/
structure Guard.Resolved (G : Guard η) (m m₁ m' : Machine η) (p p' : Machine Unit) : Prop where
  holds : G.Holds m'
  lt : m.instances.length < m'.instances.length
  passed : G.Passed m₁ m'
  left : m.After ∅ m'
  right : p.After ∅ p'
  view : m'.view? m.instances.length = p'.view? p.instances.length

theorem Link.Along.resolved (ha : (Link.instances G m p).Along
    { m.withInstance d title seeds with host := host } m' (p.withInstance d title seeds) p') :
    G.Resolved m { m.withInstance d title seeds with host := host } m' p p' where
  holds := ha.agree.ready.holds
  lt := ha.agree.scope.1
  passed := ha.passed
  left := (((m.after_withInstance _).trans (.of_host _ _ host)).trans ha.left).of_resolve
  right := ((p.after_withInstance _).trans ha.right).of_resolve
  view := ha.agree.scope.2.2.2

/-- A caller has its own variables back. -/
theorem Link.Along.called (ha : (Link.calls G m p).Along { m.newCopy.2 with frame := [] } m'
    { p.newCopy.2 with frame := [] } p') :
    G.Beyond m { m'.dropCopy m.copies with frame := m.frame } p
      { p'.dropCopy p.copies with frame := p.frame } where
  holds := G.holds_of_host ha.agree.ready.holds rfl le_rfl fun _ _ => rfl
  passed := by
    have hbegin : G.Passed m { m.newCopy.2 with frame := [] } := G.passed_of_host rfl
    refine G.passed_trans ha.left.length_le (G.passed_trans ?_ hbegin ha.passed)
      (G.passed_of_host rfl)
    exact le_rfl
  left := .of_call ha.left
  right := .of_call ha.right

theorem run_resolveInstance_new (r : Resolver η) (d : Definition) (title : Option String)
    (seeds : Option (Table String Seed)) (m : Machine η) (host : η) :
    (resolveInstance r m.instances.length).run { m.withInstance d title seeds with host := host } =
      (instanceSteps (Instance.create d title seeds 0) η
        ⟨r, .object m.instances.length, m.copies⟩).run
          { m.withInstance d title seeds with host := host } := by
  have hnew : Machine.instance? { m.withInstance d title seeds with host := host }
      m.instances.length = some (Instance.create d title seeds m.copies) :=
    m.instance?_withInstance_self
  rw [run_resolveInstance hnew, ← instanceSteps_bare]
  rfl

/-- A call whose number of arguments is right. -/
theorem run_invokeFunction {r : Resolver η} {d : Definition} {args : List Value}
    (h : d.checkArity args.length = .ok ()) (m : Machine η) : (invokeFunction r d args).run m =
      (withCall fun copy => callSteps d args η ⟨r, .frame, copy⟩).run m := by
  rw [invokeFunction, h]
  rfl

theorem run_invokeFunction_error {r : Resolver η} {d : Definition} {args : List Value}
    {e : EvalError} (h : d.checkArity args.length = .error e) (m : Machine η) :
    (invokeFunction r d args).run m = (.error (.error e), m) := by
  rw [invokeFunction, h]
  rfl

namespace Resolver.Follows

variable {r : Resolver η} {s : Resolver Unit}

/-- A call ends as the same call does elsewhere. -/
theorem invokeFunction (hr : r.Follows G s) (d : Definition) (args : List Value)
    (h : G.Ready m p) (hne : ((Cascade.invokeFunction s d args).run p).1 ≠ .error .exhausted) :
    ((Cascade.invokeFunction r d args).run m).1 = ((Cascade.invokeFunction s d args).run p).1 ∧
    G.Beyond m ((Cascade.invokeFunction r d args).run m).2 p
      ((Cascade.invokeFunction s d args).run p).2 := by
  cases hc : d.checkArity args.length with
  | error e =>
    rw [run_invokeFunction_error hc, run_invokeFunction_error hc]
    exact ⟨rfl, h.holds.beyond p⟩
  | ok _ =>
    rw [run_invokeFunction hc, run_withCall] at hne ⊢
    rw [run_invokeFunction hc, run_withCall]
    obtain ⟨hresult, ha⟩ := (uniform_callSteps d args).follows (l := Link.calls G m p) hr rfl rfl
      h.agree_calls hne
    exact ⟨hresult, ha.called⟩

/-- An instance that has just been made is resolved as its like elsewhere. -/
theorem resolveInstance (hr : r.Follows G s) (d : Definition) (title : Option String)
    (seeds : Option (Table String Seed)) (h : G.Ready m p)
    (hholds : G.Holds { m.withInstance d title seeds with host := host })
    (hopen : G.Open host m.instances.length)
    (hne : ((Cascade.resolveInstance s p.instances.length).run (p.withInstance d title seeds)).1 ≠
      .error .exhausted) :
    let m' := (Cascade.resolveInstance r m.instances.length).run
      { m.withInstance d title seeds with host := host }
    let p' := (Cascade.resolveInstance s p.instances.length).run (p.withInstance d title seeds)
    m'.1 = p'.1 ∧ G.Resolved m { m.withInstance d title seeds with host := host } m'.2 p p'.2 := by
  have hright := run_resolveInstance_new s d title seeds p ()
  change (Cascade.resolveInstance s p.instances.length).run (p.withInstance d title seeds) = _
    at hright
  rw [hright] at hne ⊢
  rw [run_resolveInstance_new]
  obtain ⟨hresult, ha⟩ := (uniform_instanceSteps (Instance.create d title seeds 0)).follows
    (l := Link.instances G m p) hr rfl rfl (h.agree_instances hholds hopen) hne
  exact ⟨hresult, ha.resolved⟩

end Resolver.Follows

end Fresh

end Cascade
