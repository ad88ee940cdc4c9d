import Cascade.Proofs.Eval.Order
import Cascade.Proofs.Eval.Protocol
/-!
How interrupts travel. The first part of a node that is interrupted, by an error or a `return`,
interrupts the node in the same way, and nothing happens after it; the nodes of the parts that were
to come are not touched. Only the scope of an instance keeps an error of an assignment to itself. So
the statements of a class or function end with the first that returns or fails.
-/
namespace Cascade

variable {η : Type}

section Evaluation

variable (env : Env η)

/-- The scope of an instance keeps an error of the right-hand side of an assignment to itself. -/
def Captures (env : Env η) (kind : ExprKind) (m : Machine η) : Prop :=
  ∃ target value name number e, kind = .assignment target value ∧
    assignmentTarget? target = some name ∧ env.scope = .object number ∧
      ((eval env value).run m).1 = .error (.fault (.error e))

/-- How a node is evaluated, `ps` being the parts that are. -/
inductive Evaluation (env : Env η) (kind : ExprKind) (m : Machine η) :
    List Expr → Outcome × Machine η → Prop
  | strict {ps : List Expr} {q : Outcome × Machine η} : ¬ Captures env kind m →
      Ends env kind.order m ps q → Evaluation env kind m ps q
  /-- The error is noted with the property instead. -/
  | captured {target value : Expr} {name : String} {number : Nat} {e : EvalError} {m' : Machine η} :
      kind = .assignment target value → assignmentTarget? target = some name →
      env.scope = .object number → (eval env value).run m = (.error (.fault (.error e)), m') →
      Evaluation env kind m [value] (.ok .undef, m'.updateInstance number fun inst =>
        { inst with properties := inst.properties.set name (.ofError e) })

theorem run_assignment {target : Expr} {name : String} (ht : assignmentTarget? target = some name)
    (node : NodeRef) (value : Expr) (m : Machine η) :
    (evalKind env node (.assignment target value)).run m =
      (env.scope.assign name ((eval env value).run m).1 : Eval η Value).run
        ((eval env value).run m).2 := by
  simp only [evalKind, ht]
  rw [run_bind]
  rfl

theorem evaluation_assignment (node : NodeRef) (target value : Expr) (m : Machine η) :
    ∃ ps, Evaluation env (.assignment target value) m ps
      ((evalKind env node (.assignment target value)).run m) := by
  cases ht : assignmentTarget? target with
  | none =>
    simp only [evalKind, ht]
    refine ⟨[], .strict ?_ (.fails _ (.nil _ _))⟩
    rintro ⟨_, _, name, _, _, hk, hn, -⟩
    cases hk
    simp [ht] at hn
  | some name =>
    have horder : (ExprKind.assignment target value).order = Order.stop.inTurn [value] := by
      simp [ExprKind.order, ht]
    rw [run_assignment env ht]
    rcases h : (eval env value).run m with ⟨i | v, m'⟩
    · by_cases hc : Captures env (.assignment target value) m
      · obtain ⟨_, _, _, number, e, hk, hn, hs, he⟩ := hc
        cases hk
        obtain rfl : name = _ := Option.some.inj (ht.symm.trans hn)
        obtain rfl : i = .fault (.error e) := by simpa [h] using he
        simp only [hs]
        exact ⟨[value], .captured rfl ht hs h⟩
      · have hthrow : (env.scope.assign name (.error i) : Eval η Value).run m' = (.error i, m') := by
          cases hs : env.scope with
          | frame => rfl
          | object number =>
            rcases i with v | (e | _)
            · rfl
            · exact absurd ⟨target, value, name, number, e, rfl, ht, hs, by rw [h]⟩ hc
            · rfl
        rw [hthrow]
        refine ⟨[] ++ [value], .strict hc ?_⟩
        rw [horder]
        exact .interrupted (.nil _ m) h
    · refine ⟨[value], .strict ?_ ?_⟩
      · rintro ⟨_, _, _, _, e, hk, -, -, he⟩
        cases hk
        simp [h] at he
      · rw [horder]
        exact .done _ (.part h (.errand (.assign name v m') (.nil _ _)))

theorem evaluation_evalKind (node : NodeRef) (kind : ExprKind) (m : Machine η) :
    ∃ ps, Evaluation env kind m ps ((evalKind env node kind).run m) := by
  by_cases hk : ∃ target value, kind = .assignment target value
  · obtain ⟨target, value, rfl⟩ := hk
    exact evaluation_assignment env node target value m
  · have hno : ∀ target value, kind ≠ .assignment target value := by simpa using hk
    obtain ⟨ps, hends⟩ := obeys_evalKind env node kind hno m
    refine ⟨ps, .strict ?_ hends⟩
    rintro ⟨target, value, -, -, -, he, -⟩
    exact hno target value he

/-- Only parts of the node are evaluated, from left to right. -/
theorem Evaluation.sublist {env : Env η} {kind : ExprKind} {m : Machine η} {ps : List Expr}
    {q : Outcome × Machine η} (h : Evaluation env kind m ps q) : ps.Sublist kind.exprs := by
  cases h with
  | strict _ h => exact h.sublist kind.order_along
  | captured hk =>
    subst hk
    exact .cons _ (.refl _)

end Evaluation

/-- Of the cells of a copy, only those of the nodes of `es` may have changed. -/
structure Machine.Inside (copy : Nat) (es : List Expr) (m m' : Machine η) : Prop where
  copies_le : m.copies ≤ m'.copies
  cells : ∀ k ∉ numbers es, m'.cell copy k = m.cell copy k

section Cells

variable {env : Env η} {copy : Nat} {m m' m'' : Machine η} {es es' ps : List Expr}

namespace Machine.Inside

theorem refl (m : Machine η) : m.Inside copy es m := ⟨le_rfl, fun _ _ => rfl⟩

theorem trans (h : m.Inside copy es m') (h' : m'.Inside copy es m'') : m.Inside copy es m'' :=
  ⟨h.copies_le.trans h'.copies_le, fun k hk => (h'.cells k hk).trans (h.cells k hk)⟩

theorem mono (h : m.Inside copy es m') (hsub : numbers es ⊆ numbers es') : m.Inside copy es' m' :=
  ⟨h.copies_le, fun k hk => h.cells k fun hin => hk (hsub hin)⟩

end Machine.Inside

open Machine

/-- No errand touches the cells, if no request does. -/
theorem Errand.inside {Q : Course η} (hr : env.resolver.Spares Q) (hm : env.copy < m.copies)
    (h : Errand env m m') : m.Inside env.copy es m' := by
  have hrequest {ε α : Type} {x : ExceptT ε (StateM (Machine η)) α} (hx : Spares Q ∅ x) :
      m.Inside env.copy es (x.run m).2 :=
    ⟨(hx m).after.copies_le, fun k _ => (hx m).after.cells env.copy hm (Set.notMem_empty _) k⟩
  cases h with
  | resolveClass name => exact hrequest (hr.resolveClass name)
  | resolveFunction name => exact hrequest (hr.resolveFunction name)
  | invoke d args => exact hrequest (hr.invoke d args)
  | assign name v =>
    cases env.scope with
    | frame => exact ⟨le_rfl, fun _ _ => rfl⟩
    | object i => exact ⟨(copies_updateInstance m i _).ge, fun k _ => cell_updateInstance m i _ _ k⟩
  | declareResource r =>
    cases env.scope with
    | frame => exact ⟨le_rfl, fun _ _ => rfl⟩
    | object i => exact ⟨(copies_updateInstance m i _).ge, fun k _ => cell_updateInstance m i _ _ k⟩

theorem Asks.inside {Q : Course η} (hr : env.resolver.Spares Q) {o o' : Order}
    (h : Asks env o m ps m' o') (hm : env.copy < m.copies) (hps : ps ⊆ es)
    (hes : ∀ p ∈ es, ∀ m : Machine η, env.copy < m.copies →
      m.Inside env.copy [p] ((eval env p).run m).2) : m.Inside env.copy ps m' := by
  induction h with
  | nil o m => exact .refl m
  | errand he _ ih =>
    have hle := (he.inside hr hm : Machine.Inside env.copy [] _ _).copies_le
    exact (he.inside hr hm).trans (ih (hm.trans_le hle) hps)
  | @part e next v o' m m' m'' ps hrun _ ih =>
    have hin := hes e (hps List.mem_cons_self) m hm
    rw [hrun] at hin
    have hrest := ih (hm.trans_le hin.copies_le) fun p hp => hps (List.mem_cons_of_mem _ hp)
    exact (hin.mono (numbers_mono (by simp))).trans
      (hrest.mono (numbers_mono fun _ => List.mem_cons_of_mem _))

theorem Evaluation.inside {Q : Course η} (hr : env.resolver.Spares Q) {kind : ExprKind}
    {q : Outcome × Machine η} (h : Evaluation env kind m ps q) (hm : env.copy < m.copies)
    (hparts : ∀ p ∈ kind.exprs, ∀ m : Machine η, env.copy < m.copies →
      m.Inside env.copy [p] ((eval env p).run m).2) : m.Inside env.copy ps q.2 := by
  have hps := h.sublist
  cases h with
  | strict _ h =>
    cases h with
    | done q ha => exact ha.inside hr hm hps.subset hparts
    | fails f ha => exact ha.inside hr hm hps.subset hparts
    | @interrupted m' m'' ps e next i ha hi =>
      have hbefore := ha.inside hr hm (fun p hp => hps.subset (List.mem_append_left _ hp)) hparts
      have hlast := hparts e (hps.subset (by simp)) m' (hm.trans_le hbefore.copies_le)
      rw [hi] at hlast
      exact (hbefore.mono (numbers_mono fun _ => List.mem_append_left _)).trans
        (hlast.mono (numbers_mono fun _ => List.mem_append_right _))
  | @captured target value name number e m' hk ht hs hv =>
    have hin := hparts value (hps.subset (by simp)) m hm
    rw [hv] at hin
    exact hin.trans ⟨(copies_updateInstance m' number _).ge,
      fun k _ => cell_updateInstance m' number _ _ k⟩

theorem run_eval {id : Nat} (kind : ExprKind) (h : m.cell env.copy id = .unresolved) :
    ∃ ps q, Evaluation env kind (m.setCell env.copy id .resolving) ps q ∧
      (eval env (.node id kind)).run m = (q.1, q.2.setCell env.copy id (.ofOutcome q.1)) := by
  obtain ⟨ps, hps⟩ := evaluation_evalKind env ⟨id, kind.name⟩ kind
    (m.setCell env.copy id .resolving)
  refine ⟨ps, _, hps, ?_⟩
  rw [eval, run_memo_unresolved h]

/-- An expression touches no cells but those of its own nodes. -/
theorem eval_inside {Q : Course η} (hr : env.resolver.Spares Q) (hapart : Apart es) :
    ∀ p ∈ es, ∀ m : Machine η, env.copy < m.copies →
      m.Inside env.copy [p] ((eval env p).run m).2 := by
  induction hapart with
  | nil => exact fun p hp => absurd hp List.not_mem_nil
  | @cons root es _ _ _ _ ihparts ihrest =>
    intro p hp m hm
    rcases List.mem_cons.mp hp with rfl | hp
    · obtain ⟨id, kind⟩ := p
      have hsub : numbers kind.exprs ⊆ numbers [.node id kind] :=
        numbers_node ▸ Set.subset_insert _ _
      have hself : id ∈ numbers [.node id kind] := numbers_node ▸ Set.mem_insert _ _
      have hset (m : Machine η) (s : CellState) :
          m.Inside env.copy [.node id kind] (m.setCell env.copy id s) := by
        refine ⟨le_rfl, fun k hk => ?_⟩
        rw [cell_setCell, if_neg]
        rintro ⟨-, rfl⟩
        exact hk hself
      rcases CellState.begin_cases (m.cell env.copy id) with hc | hc | ⟨o, hc⟩
      · obtain ⟨ps, q, hq, hrun⟩ := run_eval kind hc
        have hin := hq.inside hr hm ihparts
        rw [hrun]
        have hps := numbers_mono hq.sublist.subset
        exact ((hset m _).trans (hin.mono (hps.trans hsub))).trans (hset _ _)
      · rw [eval, run_memo, hc]
        exact .refl m
      · rw [eval, run_memo, hc, CellState.begin_ofOutcome]
        exact .refl m
    · exact ihrest p hp m hm

/-- Parts of a tree that is apart do not share nodes. -/
theorem Apart.disjoint_of_sublist {p : Expr} (hapart : Apart es) (hps : ps.Sublist es) (hp : p ∈ es)
    (hnot : p ∉ ps) : Disjoint (numbers [p]) (numbers ps) := by
  induction hps with
  | slnil => exact absurd hp List.not_mem_nil
  | @cons ps es e hps ih =>
    obtain ⟨-, -, htail, hdisjoint⟩ := apart_cons.mp hapart
    rcases List.mem_cons.mp hp with rfl | hp
    · exact hdisjoint.mono_right (numbers_mono hps.subset)
    · exact ih htail hp hnot
  | @cons_cons ps es e hps ih =>
    obtain ⟨-, -, htail, hdisjoint⟩ := apart_cons.mp hapart
    have hp : p ∈ es := (List.mem_cons.mp hp).resolve_left fun h => hnot (by simp [h])
    have hrest := ih htail hp fun h => hnot (List.mem_cons_of_mem _ h)
    have hcons : numbers (e :: ps) = numbers [e] ∪ numbers ps := by
      rw [← numbers_append, List.singleton_append]
    rw [hcons, Set.disjoint_union_right]
    have hsub : numbers [p] ⊆ numbers es := numbers_mono (by simpa using hp)
    exact ⟨(hdisjoint.mono_right hsub).symm, hrest⟩

/-- What comes after the parts that are evaluated stays as it was. -/
theorem Evaluation.unresolved {Q : Course η} (hr : env.resolver.Spares Q) {kind : ExprKind}
    {q : Outcome × Machine η} (h : Evaluation env kind m ps q) (hm : env.copy < m.copies)
    (hapart : Apart kind.exprs) {p : Expr} (hp : p ∈ kind.exprs) (hnot : p ∉ ps) {k : Nat}
    (hk : k ∈ numbers [p]) : q.2.cell env.copy k = m.cell env.copy k := by
  have hdisjoint := hapart.disjoint_of_sublist h.sublist hp hnot
  exact (h.inside hr hm (eval_inside hr hapart)).cells k (hdisjoint.notMem_of_mem_left hk)

end Cells

section Statements

variable (env : Env η)

end Statements

/-- Of `[1, return(2), 3]` the last item is not evaluated. -/
example (resolver : Resolver Unit) :
    let list := Expr.node 0 (.list [.node 1 (.literal (.integer 1)),
      .node 2 (.ret (some (.node 3 (.literal (.integer 2))))), .node 4 (.literal (.integer 3))])
    let q := (eval ⟨resolver, .frame, 0⟩ list).run { Machine.start () with copies := 1 }
    q.1 = .error (.returned (.integer 2)) ∧ q.2.cell 0 1 = .resolved (.integer 1) ∧
      q.2.cell 0 2 = .returned (.integer 2) ∧ q.2.cell 0 4 = .unresolved :=
  ⟨rfl, rfl, rfl, rfl⟩

end Cascade
