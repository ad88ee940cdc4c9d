import Cascade.Proofs.Eval.Frame
/-!
The protocol that the cells of a copy follow. Whatever is evaluated, and whatever the resolver asks
for meanwhile, all that happens to the cells is a session: a node is begun while its cell is
unresolved, its parts come within a session of their own, and then its cell gets the outcome. So no
cell ever goes back, no node is evaluated twice, and nothing is left half done.
-/
namespace Cascade

/-- What happens to the cells of a copy. -/
inductive CellEvent
  | begun (node : Nat)
  | ended (node : Nat) (o : Outcome)

namespace CellEvent

end CellEvent

/-- Events that lead from some cells to others, each of which finds its cell where it has to be: a
node is begun only if its cell is unresolved, and ended only if it is being resolved. -/
inductive Lawful : (Nat → CellState) → List CellEvent → (Nat → CellState) → Prop
  | nil (c : Nat → CellState) : Lawful c [] c
  | begun {c c' : Nat → CellState} {es : List CellEvent} {node : Nat} : c node = .unresolved →
      Lawful (Function.update c node .resolving) es c' → Lawful c (.begun node :: es) c'
  | ended {c c' : Nat → CellState} {es : List CellEvent} {node : Nat} {o : Outcome} :
      c node = .resolving → Lawful (Function.update c node (.ofOutcome o)) es c' →
      Lawful c (.ended node o :: es) c'

@[simp] theorem CellState.ofOutcome_ne_unresolved (o : Outcome) : ofOutcome o ≠ .unresolved := by
  rcases o with (v | f) | v <;> simp [ofOutcome]

@[simp] theorem CellState.ofOutcome_ne_resolving (o : Outcome) : ofOutcome o ≠ .resolving := by
  rcases o with (v | f) | v <;> simp [ofOutcome]

/-- A cell has an outcome, is unresolved or is being resolved. -/
theorem CellState.begin_cases (s : CellState) : s = .unresolved ∨ s = .resolving ∨
    ∃ o, s = ofOutcome o := by
  cases s with
  | unresolved => exact .inl rfl
  | resolving => exact .inr (.inl rfl)
  | resolved v => exact .inr (.inr ⟨.ok v, rfl⟩)
  | returned v => exact .inr (.inr ⟨.error (.returned v), rfl⟩)
  | failed f => exact .inr (.inr ⟨.error (.fault f), rfl⟩)

namespace Lawful

variable {c c' c'' : Nat → CellState} {es es' : List CellEvent} {node : Nat}

theorem append (h : Lawful c es c') (h' : Lawful c' es' c'') : Lawful c (es ++ es') c'' := by
  induction h with
  | nil => exact h'
  | begun hc _ ih => exact .begun hc (ih h')
  | ended hc _ ih => exact .ended hc (ih h')

/-- An outcome stays. -/
theorem keeps {o : Outcome} (h : Lawful c es c') (ho : c node = .ofOutcome o) :
    c' node = .ofOutcome o := by
  induction h with
  | nil => exact ho
  | begun hc _ ih =>
    refine ih ?_
    rw [Function.update_of_ne, ho]
    rintro rfl
    simp [ho] at hc
  | ended hc _ ih =>
    refine ih ?_
    rw [Function.update_of_ne, ho]
    rintro rfl
    simp [ho] at hc

end Lawful

variable {η : Type}

/-- What a run does to the cells of a copy: it leaves them alone, or it evaluates a node whose cell
is unresolved, with a session of its own inside, or it is one session after another. -/
inductive Session (copy : Nat) : List CellEvent → Machine η → Machine η → Prop
  | quiet {m m' : Machine η} : m.copies ≤ m'.copies → (∀ n, m'.cell copy n = m.cell copy n) →
      Session copy [] m m'
  | node {m : Machine η} {es : List CellEvent} (node : Nat) (x : Eval η Value) :
      m.cell copy node = .unresolved →
      Session copy es (m.setCell copy node .resolving)
        (x.run (m.setCell copy node .resolving)).2 →
      Session copy (.begun node :: es ++ [.ended node ((Eval.memo copy node x).run m).1]) m
        ((Eval.memo copy node x).run m).2
  | trans {m m' m'' : Machine η} {es es' : List CellEvent} : Session copy es m m' →
      Session copy es' m' m'' → Session copy (es ++ es') m m''

namespace Session

variable {copy : Nat} {es : List CellEvent} {m m' : Machine η}

theorem copies_le (h : Session copy es m m') : m.copies ≤ m'.copies := by
  induction h with
  | quiet hle _ => exact hle
  | node node x hc _ ih =>
    rw [run_memo_unresolved hc]
    exact ih
  | trans _ _ ih ih' => exact ih.trans ih'

end Session

/-- Whatever a program does to the cells of a copy is a session. -/
def KeepsTo {ε α : Type} (copy : Nat) (x : ExceptT ε (StateM (Machine η)) α) : Prop :=
  ∀ m : Machine η, copy < m.copies → ∃ es, Session copy es m (x.run m).2

namespace KeepsTo

variable {ε ε' α β : Type} {copy : Nat} {x : ExceptT ε (StateM (Machine η)) α}

theorem of_quiet (h : ∀ m : Machine η, copy < m.copies → m.copies ≤ (x.run m).2.copies ∧
    ∀ n, (x.run m).2.cell copy n = m.cell copy n) : KeepsTo copy x :=
  fun m hm => ⟨[], .quiet (h m hm).1 (h m hm).2⟩

theorem pure (a : α) : KeepsTo copy (Pure.pure a : ExceptT ε (StateM (Machine η)) α) :=
  .of_quiet fun _ _ => ⟨le_rfl, fun _ => rfl⟩

theorem throw (e : ε) : KeepsTo copy (throw e : ExceptT ε (StateM (Machine η)) α) :=
  .of_quiet fun _ _ => ⟨le_rfl, fun _ => rfl⟩

theorem bind {f : α → ExceptT ε (StateM (Machine η)) β} (hx : KeepsTo copy x)
    (hf : ∀ a, KeepsTo copy (f a)) : KeepsTo copy (x >>= f) := by
  intro m hm
  obtain ⟨es, h⟩ := hx m hm
  rw [run_bind]
  rcases hrun : x.run m with ⟨e | a, m'⟩
  · rw [hrun] at h
    exact ⟨es, h⟩
  · rw [hrun] at h
    obtain ⟨es', h'⟩ := hf a m' (hm.trans_le h.copies_le)
    exact ⟨es ++ es', h.trans h'⟩

theorem ending (g : Except ε α → Except ε' β) (hx : KeepsTo copy x) :
    KeepsTo copy (Cascade.ending g x) :=
  hx

theorem get : KeepsTo copy (MonadState.get : ExceptT ε (StateM (Machine η)) (Machine η)) :=
  .of_quiet fun _ _ => ⟨le_rfl, fun _ => rfl⟩

theorem modify {f : Machine η → Machine η}
    (h : ∀ m, (f m).copies = m.copies ∧ ∀ n, (f m).cell copy n = m.cell copy n) :
    KeepsTo copy (modify f : ExceptT ε (StateM (Machine η)) PUnit) :=
  .of_quiet fun m _ => ⟨(h m).1.ge, (h m).2⟩

/-- A node is evaluated if its cell is unresolved, and has its answer otherwise. -/
theorem memo {x : Eval η Value} (copy' node : Nat) (hx : KeepsTo copy x) :
    KeepsTo copy (Eval.memo copy' node x) := by
  intro m hm
  rcases CellState.begin_cases (m.cell copy' node) with hc | hc | ⟨o, hc⟩
  · obtain ⟨es, h⟩ := hx (m.setCell copy' node .resolving) hm
    by_cases hcopy : copy' = copy
    · subst hcopy
      exact ⟨_, .node node x hc h⟩
    · have hbefore : Session copy [] m (m.setCell copy' node .resolving) :=
        .quiet le_rfl (by simp [hcopy])
      have hafter : Session copy [] (x.run (m.setCell copy' node .resolving)).2
          ((Eval.memo copy' node x).run m).2 := by
        rw [run_memo_unresolved hc]
        exact .quiet le_rfl (by simp [hcopy])
      exact ⟨_, hbefore.trans (h.trans hafter)⟩
  · rw [run_memo, hc]
    exact ⟨[], .quiet le_rfl fun _ => rfl⟩
  · rw [run_memo, hc, CellState.begin_ofOutcome]
    exact ⟨[], .quiet le_rfl fun _ => rfl⟩

end KeepsTo

/-- A resolver that touches a copy only by asking for nodes of it, as any evaluation does. -/
structure Resolver.KeepsTo (r : Resolver η) (copy : Nat) : Prop where
  resolveClass (name : String) : Cascade.KeepsTo copy (r.resolveClass name)
  resolveFunction (name : String) : Cascade.KeepsTo copy (r.resolveFunction name)
  invoke (d : Definition) (args : List Value) : Cascade.KeepsTo copy (r.invoke d args)

theorem Uniform.keepsTo {k : Scope.Kind} {ε α : Type} [Bounded ε] {x : Program ε α}
    (h : Uniform k x) {copy : Nat} (env : Env η) (hk : env.scope.kind = k)
    (hr : env.resolver.KeepsTo copy) : KeepsTo copy (x η env) := by
  induction h with
  | pure a => exact .pure a
  | throw e _ => exact .throw e
  | bind _ _ hx hf => exact hx.bind hf
  | ending _ _ hx => exact hx.ending _
  | memo node _ hx => exact hx.memo env.copy node
  | look _ hf => exact fun m hm => hf (env.sight m) m hm
  | shown name =>
    intro m hm
    rw [run_shown]
    exact hr.resolveClass name m hm
  | resolveFunction name => exact hr.resolveFunction name
  | call name _ hx =>
    simp only [callFunction_eq]
    exact .bind (.ending _ (hr.resolveFunction name)) fun
      | none => .throw _
      | some d => .bind hx fun args => .ending _ (.ending _ (hr.invoke d args))
  | registerSource name level => exact .modify fun _ => ⟨rfl, fun _ => rfl⟩
  | setFrame name v _ => exact .modify fun _ => ⟨rfl, fun _ => rfl⟩
  | update change _ _ => exact .modify fun _ => ⟨by simp, by simp⟩
  | congr _ heq hx =>
    rw [heq η env hk]
    exact hx

/-- A copy is kept to where it is not touched at all. -/
theorem Resolver.Spares.keepsTo {Q : Course η} {r : Resolver η} (hr : r.Spares Q) (copy : Nat) :
    r.KeepsTo copy := by
  have hquiet : ∀ {α : Type} {x : Act η α}, Cascade.Spares Q ∅ x → Cascade.KeepsTo copy x :=
    fun hx => .of_quiet fun m hm => ⟨(hx m).after.copies_le,
      (hx m).after.cells copy hm (Set.notMem_empty _)⟩
  exact ⟨fun name => hquiet (hr.resolveClass name), fun name => hquiet (hr.resolveFunction name),
    fun d args => hquiet (hr.invoke d args)⟩

/-- One call of `resolve`: a node, and the scope and the resolver it is resolved with. -/
structure Call (η : Type) where
  resolver : Resolver η
  scope : Scope
  expr : Expr

namespace Call

/-- The call for the nodes of one copy of a tree. -/
def run (copy : Nat) (c : Call η) (m : Machine η) : Outcome × Machine η :=
  (eval ⟨c.resolver, c.scope, copy⟩ c.expr).run m

/-- What comes of calls, one after the other. -/
def runAll (copy : Nat) (calls : List (Call η)) (m : Machine η) : Machine η :=
  calls.foldl (fun m c => (c.run copy m).2) m

variable {copy : Nat} {c : Call η} {m : Machine η}

/-- A node that is asked for while it is being resolved is undefined so far. -/
theorem run_of_resolving (h : m.cell copy c.expr.id = .resolving) :
    c.run copy m = (.ok .undef, m) := by
  obtain ⟨_, _, id, kind⟩ := c
  rw [run, eval, run_memo]
  have hcell : m.cell copy id = .resolving := h
  rw [hcell]
  rfl

/-- Knows no class and no function. -/
def nobody : Resolver Unit where
  resolveClass name := Act.error (.notFound .hostClass name)
  resolveFunction _ := return none
  invoke _ _ := return .undef
  global? _ _ := none
  lookupGlobal _ _ := .missing
  registerSource _ _ _ h := h

/-- A machine with one copy, of which nothing is known. -/
def blank : Machine Unit := { Machine.start () with copies := 1 }

end Call

end Cascade
