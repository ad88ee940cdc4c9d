import Cascade.Proofs.Eval.Frame
import Cascade.Proofs.Eval.Hints
import Cascade.Proofs.Eval.Nodes
/-!
How failures pass through the evaluation of an instance. What evaluates some expressions touches no
cells but those of their nodes, and it only adds to the properties of the instance. If one of the
expressions fails, all of it fails with that failure, so that in the end the cells tell where an error
has come from; but the scope of an instance stops errors at every assignment.
-/
namespace Cascade

variable {η : Type} {number copy : Nat} {es es' : List Expr}

namespace Machine

/-- An evaluation of `es` may begin: nothing is known about them. -/
structure Ready (number copy : Nat) (es : List Expr) (m : Machine η) : Prop where
  copy_lt : copy < m.copies
  number_lt : number < m.instances.length
  fresh : ∀ k ∈ numbers es, m.cell copy k = .unresolved

/-- What an evaluation of `es` for an instance may do. -/
structure Onto (number copy : Nat) (es : List Expr) (m m' : Machine η) : Prop where
  copies_le : m.copies ≤ m'.copies
  length_le : m.instances.length ≤ m'.instances.length
  cells : ∀ k ∉ numbers es, m'.cell copy k = m.cell copy k
  grows {i : Instance} : m.instance? number = some i →
    ∃ i', m'.instance? number = some i' ∧ i.Grows i'

variable {m m' m'' : Machine η}

namespace Onto

theorem refl (m : Machine η) : m.Onto number copy es m :=
  ⟨le_rfl, le_rfl, fun _ _ => rfl, fun {i} hi => ⟨i, hi, .refl i⟩⟩

theorem trans (h : m.Onto number copy es m') (h' : m'.Onto number copy es m'') :
    m.Onto number copy es m'' where
  copies_le := h.copies_le.trans h'.copies_le
  length_le := h.length_le.trans h'.length_le
  cells k hk := (h'.cells k hk).trans (h.cells k hk)
  grows hi := by
    obtain ⟨i', hi', hgrows⟩ := h.grows hi
    obtain ⟨i'', hi'', hgrows'⟩ := h'.grows hi'
    exact ⟨i'', hi'', hgrows.trans hgrows'⟩

/-- The instance itself is changed. -/
theorem update {change : Instance → Instance} (h : ∀ i : Instance, i.Grows (change i))
    (m : Machine η) : m.Onto number copy es (m.updateInstance number change) where
  copies_le := by simp
  length_le := by simp
  cells k _ := by simp
  grows {i} hi := by
    refine ⟨change i, ?_, h i⟩
    rw [instance?_updateInstance, if_pos rfl, hi]
    rfl

theorem mono (h : m.Onto number copy es m') (hsub : numbers es ⊆ numbers es') :
    m.Onto number copy es' m' :=
  { h with cells := fun k hk => h.cells k fun hin => hk (hsub hin) }

end Onto

namespace Ready

theorem mono (h : m.Ready number copy es') (hsub : numbers es ⊆ numbers es') :
    m.Ready number copy es :=
  { h with fresh := fun k hk => h.fresh k (hsub hk) }

/-- What has been evaluated leaves the rest as it was. -/
theorem onto (h : m.Ready number copy es') (ho : m.Onto number copy es m')
    (hdisjoint : Disjoint (numbers es) (numbers es')) : m'.Ready number copy es' where
  copy_lt := h.copy_lt.trans_le ho.copies_le
  number_lt := h.number_lt.trans_le ho.length_le
  fresh k hk := (ho.cells k fun hin => hdisjoint.notMem_of_mem_left hin hk).trans (h.fresh k hk)

end Ready

end Machine

open Machine

/-- Where nothing is known about `es`, `x` does only what an evaluation of them may do. -/
def Keeps (number copy : Nat) (es : List Expr) {ε α : Type}
    (x : ExceptT ε (StateM (Machine η)) α) : Prop :=
  ∀ m : Machine η, m.Ready number copy es → m.Onto number copy es (x.run m).2

namespace Keeps

variable {ε ε' α β : Type} {x : ExceptT ε (StateM (Machine η)) α}

theorem pure (a : α) : Keeps number copy es (Pure.pure a : ExceptT ε (StateM (Machine η)) α) :=
  fun m _ => .refl m

theorem throw (e : ε) : Keeps number copy es (throw e : ExceptT ε (StateM (Machine η)) α) :=
  fun m _ => .refl m

theorem bind (hdisjoint : Disjoint (numbers es) (numbers es')) (hx : Keeps number copy es x)
    {f : α → ExceptT ε (StateM (Machine η)) β} (hf : ∀ a, Keeps number copy es' (f a)) :
    Keeps number copy (es ++ es') (x >>= f) := by
  intro m hm
  have hleft : numbers es ⊆ numbers (es ++ es') := by simp
  have hright : numbers es' ⊆ numbers (es ++ es') := by simp
  have ho := hx m (hm.mono hleft)
  rw [run_bind]
  rcases hrun : x.run m with ⟨e | a, m'⟩
  · rw [hrun] at ho
    exact ho.mono hleft
  · rw [hrun] at ho
    have ho' := hf a m' ((hm.mono hright).onto ho hdisjoint)
    exact (ho.mono hleft).trans (ho'.mono hright)

theorem ending (g : Except ε α → Except ε' β) (hx : Keeps number copy es x) :
    Keeps number copy es (Cascade.ending g x) :=
  hx

/-- What keeps to nothing keeps to anything. -/
theorem of_nil (hx : Keeps number copy [] x) : Keeps number copy es x :=
  fun m hm => (hx m (hm.mono (by simp))).mono (by simp)

theorem lift (a : Except EvalError α) : Keeps number copy es (liftM a : Eval η α) := by
  cases a with
  | error e => exact .throw _
  | ok a => exact .pure a

theorem quiet_bind (hx : Keeps number copy [] x) {f : α → ExceptT ε (StateM (Machine η)) β}
    (hf : ∀ a, Keeps number copy es (f a)) : Keeps number copy es (x >>= f) :=
  List.nil_append es ▸ hx.bind (by simp) hf

theorem bind_quiet (hx : Keeps number copy es x) {f : α → ExceptT ε (StateM (Machine η)) β}
    (hf : ∀ a, Keeps number copy [] (f a)) : Keeps number copy es (x >>= f) :=
  List.append_nil es ▸ hx.bind (by simp) hf

/-- A request leaves alone what belongs to an instance that was there before. -/
theorem of_spares {Q : Course η} (hx : Spares Q ∅ x) : Keeps number copy [] x := by
  intro m hm
  have hafter := (hx m).after
  exact
    { copies_le := hafter.copies_le
      length_le := hafter.length_le
      cells := fun k _ => hafter.cells copy hm.copy_lt (Set.notMem_empty _) k
      grows := fun {i} hi => by
        refine ⟨i, ?_, .refl i⟩
        rw [hafter.instances number hm.number_lt (Set.notMem_empty _), hi] }

theorem update {change : Instance → Instance} (h : ∀ i : Instance, i.Grows (change i)) :
    Keeps number copy [] (modify fun m => m.updateInstance number change :
      ExceptT ε (StateM (Machine η)) PUnit) :=
  fun m _ => .update h m

end Keeps

/-- What the cells tell about an evaluation of `es` that has ended: the nodes account for their
failures, and if one of `es` has failed, so has the evaluation. -/
structure Passed (copy : Nat) (es : List Expr) {α : Type} (q : Except Interrupt α × Machine η) :
    Prop where
  accounted : ∀ n, Within n es → Accounted (q.2.cell copy) n
  passes : ∀ p ∈ es, ∀ f, q.2.cell copy p.id = .failed f → q.1 = .error (.fault f)

namespace Passed

variable {α β : Type} {q : Except Interrupt α × Machine η}

/-- Nothing has been evaluated. -/
theorem of_fresh (h : ∀ k ∈ numbers es, q.2.cell copy k = .unresolved) : Passed copy es q where
  accounted n hn := .of_exprs fun p hp f hf => by
    rw [h _ (hn.of_part hp).mem_numbers] at hf
    exact absurd hf nofun
  passes p hp f hf := by
    rw [h _ (Within.self hp).mem_numbers] at hf
    exact absurd hf nofun

theorem congr (h : Passed copy es q) {q' : Except Interrupt β × Machine η}
    (hcells : ∀ k ∈ numbers es, q'.2.cell copy k = q.2.cell copy k)
    (hfails : ∀ f, q.1 = .error (.fault f) → q'.1 = .error (.fault f)) : Passed copy es q' where
  accounted n hn := (h.accounted n hn).congr (hcells _ hn.mem_numbers) fun p hp =>
    hcells _ (hn.of_part hp).mem_numbers
  passes p hp f hf := by
    rw [hcells _ (Within.self hp).mem_numbers] at hf
    exact hfails f (h.passes p hp f hf)

theorem append (h : Passed copy es q) (h' : Passed copy es' q) : Passed copy (es ++ es') q where
  accounted n hn := (Within.append.mp hn).elim (h.accounted n) (h'.accounted n)
  passes p hp := (List.mem_append.mp hp).elim (h.passes p) (h'.passes p)

end Passed

/-- `x` evaluates `es`, as far as it comes. -/
structure Passes (number copy : Nat) (es : List Expr) {α : Type} (x : Eval η α) : Prop where
  keeps : Keeps number copy es x
  passed {m : Machine η} : m.Ready number copy es → Passed copy es (x.run m)

namespace Passes

variable {α β : Type} {x : Eval η α}

/-- What evaluates none of them. -/
theorem of_keeps (hx : Keeps number copy [] x) : Passes number copy es x where
  keeps := hx.of_nil
  passed {m} hm := .of_fresh fun k hk =>
    ((hx m (hm.mono (by simp))).cells k (by simp)).trans (hm.fresh k hk)

theorem pure (a : α) : Passes number copy es (Pure.pure a : Eval η α) := of_keeps (.pure a)

theorem throw (e : Interrupt) : Passes number copy es (throw e : Eval η α) := of_keeps (.throw e)

theorem bind (hapart : Apart (es ++ es')) (hx : Passes number copy es x) {f : α → Eval η β}
    (hf : ∀ a, Passes number copy es' (f a)) : Passes number copy (es ++ es') (x >>= f) where
  keeps := hx.keeps.bind (apart_append.mp hapart).2.2 fun a => (hf a).keeps
  passed {m} hm := by
    have hdisjoint := (apart_append.mp hapart).2.2
    have hleft : m.Ready number copy es := hm.mono (by simp)
    have hlater : m.Ready number copy es' := hm.mono (by simp)
    have hright := hlater.onto (hx.keeps m hleft) hdisjoint
    have hpassed := hx.passed hleft
    rw [run_bind]
    rcases hrun : x.run m with ⟨e | a, m'⟩
    · rw [hrun] at hpassed hright
      refine .append (hpassed.congr (fun _ _ => rfl) fun f hf => ?_) (.of_fresh hright.fresh)
      exact congrArg Except.error (Except.error.inj hf)
    · rw [hrun] at hpassed hright
      have ho' := (hf a).keeps m' hright
      refine .append (hpassed.congr (fun k hk => ?_) nofun) ((hf a).passed hright)
      exact ho'.cells k (hdisjoint.notMem_of_mem_left hk)

/-- One expression before others. -/
theorem cons {e : Expr} (hapart : Apart (e :: es)) (hx : Passes number copy [e] x)
    {f : α → Eval η β} (hf : ∀ a, Passes number copy es (f a)) :
    Passes number copy (e :: es) (x >>= f) :=
  bind hapart hx hf

theorem quiet_bind (hx : Keeps number copy [] x) {f : α → Eval η β}
    (hapart : Apart es) (hf : ∀ a, Passes number copy es (f a)) : Passes number copy es (x >>= f) := by
  have hnil : Passes number copy [] x := of_keeps hx
  exact hnil.bind (List.nil_append es ▸ hapart) hf

/-- Something that follows an evaluation. -/
theorem bind_quiet (hapart : Apart es) (hx : Passes number copy es x) {f : α → Eval η β}
    (hf : ∀ a, Keeps number copy [] (f a)) : Passes number copy es (x >>= f) := by
  have h : Passes number copy (es ++ []) (x >>= f) :=
    bind ((List.append_nil es).symm ▸ hapart) hx fun a => of_keeps (hf a)
  rwa [List.append_nil] at h

/-- Others that are not evaluated. -/
theorem left (hapart : Apart (es ++ es')) (hx : Passes number copy es x) :
    Passes number copy (es ++ es') x := by
  have h := hx.bind hapart (f := Pure.pure) fun a => .pure a
  rwa [bind_pure] at h

theorem right (hapart : Apart (es ++ es')) (hx : Passes number copy es' x) :
    Passes number copy (es ++ es') x := by
  have h : Passes number copy (es ++ es') (Pure.pure () >>= fun _ => x) :=
    bind hapart (.pure ()) fun _ => hx
  rwa [pure_bind] at h

end Passes

/-- What an evaluation of a node has come to, before its cell keeps the outcome. -/
structure Evaluated (copy : Nat) (kind : ExprKind) (q : Outcome × Machine η) : Prop where
  accounted : ∀ n, Within n kind.exprs → Accounted (q.2.cell copy) n
  passes : ∀ p ∈ kind.exposed, ∀ f, q.2.cell copy p.id = .failed f → q.1 = .error (.fault f)
  exposes : ∀ p ∈ kind.exprs, ∀ f e, q.2.cell copy p.id = .failed f →
    q.1 = .error (.fault (.error e)) → p ∈ kind.exposed

structure Evaluates (number copy : Nat) (kind : ExprKind) (x : Eval η Value) : Prop where
  keeps : Keeps number copy kind.exprs x
  evaluated {m : Machine η} : m.Ready number copy kind.exprs → Evaluated copy kind (x.run m)

variable {kind : ExprKind} {x : Eval η Value} {id : Nat}

/-- The cell of a node is none of those of its parts. -/
theorem Machine.cell_setCell_of_mem {m : Machine η} {s : CellState} {k : Nat}
    (hid : id ∉ numbers kind.exprs) (hk : k ∈ numbers kind.exprs) :
    (m.setCell copy id s).cell copy k = m.cell copy k := by
  rw [cell_setCell, if_neg]
  rintro ⟨-, rfl⟩
  exact hid hk

theorem CellState.ofOutcome_eq_failed {o : Outcome} {f : Fault} :
    ofOutcome o = .failed f ↔ o = .error (.fault f) := by
  rcases o with (v | g) | v <;> simp [ofOutcome]

/-- The cell of a node accounts for what has become of its parts. -/
theorem Evaluated.memo {q : Outcome × Machine η} (h : Evaluated copy kind q)
    (hid : id ∉ numbers kind.exprs) :
    Passed copy [.node id kind] (q.1, q.2.setCell copy id (.ofOutcome q.1)) := by
  have hself : (q.2.setCell copy id (.ofOutcome q.1)).cell copy id = .ofOutcome q.1 := by simp
  have hbelow : ∀ {n : Expr}, Within n kind.exprs →
      (q.2.setCell copy id (.ofOutcome q.1)).cell copy n.id = q.2.cell copy n.id :=
    fun hn => cell_setCell_of_mem hid hn.mem_numbers
  have hnode : Accounted ((q.2.setCell copy id (.ofOutcome q.1)).cell copy) (.node id kind) := by
    constructor
    · intro p f hp hf
      rw [hbelow (.self (ExprKind.exposed_eq_exprs hp ▸ hp))] at hf
      exact hself.trans (CellState.ofOutcome_eq_failed.mpr (h.passes p hp f hf))
    · intro p f e hp hf he
      rw [hbelow (.self hp)] at hf
      exact h.exposes p hp f e hf (CellState.ofOutcome_eq_failed.mp (hself.symm.trans he))
  constructor
  · intro n hn
    rcases Within.cons.mp hn with rfl | hn | hn
    · exact hnode
    · exact (h.accounted n hn).congr (hbelow hn) fun p hp => hbelow (hn.of_part hp)
    · exact absurd hn Within.nil
  · intro p hp f hf
    obtain rfl := List.mem_singleton.mp hp
    exact CellState.ofOutcome_eq_failed.mp (hself.symm.trans hf)

namespace Evaluates

theorem of_passes (h : Passes number copy kind.exprs x) (hkind : kind.exposed = kind.exprs) :
    Evaluates number copy kind x where
  keeps := h.keeps
  evaluated hm :=
    { accounted := (h.passed hm).accounted
      passes := hkind ▸ (h.passed hm).passes
      exposes := fun _ hp _ _ _ _ => hkind ▸ hp }

theorem memo (h : Evaluates number copy kind x) (hid : id ∉ numbers kind.exprs) :
    Passes number copy [.node id kind] (Eval.memo copy id x) := by
  have hfresh : ∀ {m : Machine η}, m.Ready number copy [.node id kind] →
      m.cell copy id = .unresolved := fun hm => hm.fresh id (numbers_node ▸ Set.mem_insert _ _)
  have hready : ∀ {m : Machine η}, m.Ready number copy [.node id kind] →
      (m.setCell copy id .resolving).Ready number copy kind.exprs := fun hm =>
    { copy_lt := hm.copy_lt
      number_lt := hm.number_lt
      fresh := fun k hk => (cell_setCell_of_mem hid hk).trans
        (hm.fresh k (numbers_node ▸ Set.mem_insert_of_mem _ hk)) }
  constructor
  · intro m hm
    have ho := h.keeps _ (hready hm)
    rw [run_memo_unresolved (hfresh hm)]
    refine { ho with cells := fun k hk => ?_ }
    rw [numbers_node, Set.mem_insert_iff, not_or] at hk
    rw [cell_setCell, if_neg fun h => hk.1 h.2.symm, ho.cells k hk.2, cell_setCell,
      if_neg fun h => hk.1 h.2.symm]
  · intro m hm
    rw [run_memo_unresolved (hfresh hm)]
    exact (h.evaluated (hready hm)).memo hid

end Evaluates

section Requests

variable {Q : Course η} {env : Env η}

theorem spares_classValue? (hr : env.resolver.Spares Q) (name property : String) :
    Spares Q ∅ (env.classValue? name property) :=
  .bind (hr.resolveClass name) fun _ => .look fun _ => .pure _

theorem spares_lookupVariable (hr : env.resolver.Spares Q) (name : String) :
    Spares Q ∅ (env.lookupVariable name) := by
  cases hq : Name.qualifier? (Name.bare name) with
  | some q =>
    simp only [Env.lookupVariable, hq]
    refine .look fun m => ?_
    split
    · exact .look fun _ => .pure _
    · exact .bind (spares_classValue? hr _ _) fun _ => .pure _
  | none =>
    simp only [Env.lookupVariable, hq]
    have hglobal : Spares Q ∅ (do
        return (env.resolver.global? (← get).host (Name.bare name)).getD .undef : Act η Value) :=
      .look fun _ => .pure _
    split
    · exact hglobal
    · refine .look fun m => ?_
      split
      next v _ => exact .pure v
      next =>
        refine .look fun m => ?_
        split
        · refine .bind (spares_classValue? hr _ _) fun inherited => ?_
          cases inherited with
          | some v => exact .pure v
          | none => exact hglobal
        · exact hglobal

theorem spares_includeClasses {r : Resolver η} (hr : r.Spares Q) (names : List String) :
    Spares Q ∅ (Builtin.includeClasses r names) := by
  induction names with
  | nil => exact .pure ()
  | cons name names ih => exact .bind (.bind (hr.resolveClass name) fun _ => .pure _) fun _ => ih

theorem spares_lookupKey (r : Resolver η) (args : List Value) :
    Spares Q ∅ (Builtin.lookupKey r args) := by
  unfold Builtin.lookupKey
  split
  · exact .throw _
  · refine .look fun m => ?_
    split
    · exact .pure _
    · split
      · exact .pure _
      · exact .throw _

theorem spares_isDefined (hr : env.resolver.Spares Q) (v : Value) :
    Spares Q ∅ (Builtin.isDefined env v) := by
  unfold Builtin.isDefined
  split
  · split
    · exact .look fun _ => .pure _
    · simp only
      split
      · exact .pure true
      · refine .bind (hr.resolveFunction _) fun f => ?_
        split
        · exact .pure true
        · exact .succeeds (hr.resolveClass _)
  · split
    · exact .succeeds (hr.resolveClass _)
    · exact .pure true
  · exact .pure true
  · exact .pure false

theorem spares_anyDefined (hr : env.resolver.Spares Q) (vs : List Value) :
    Spares Q ∅ (Builtin.anyDefined env vs) := by
  induction vs with
  | nil => exact .pure false
  | cons v vs ih =>
    unfold Builtin.anyDefined
    refine .bind (spares_isDefined hr v) fun b => ?_
    split
    · exact .pure true
    · exact ih

theorem spares_builtin (hr : env.resolver.Spares Q) (b : Builtin) (node : NodeRef)
    (args : List Value) : Spares Q ∅ (b.apply env node args) := by
  unfold Builtin.apply
  cases b with
  | message | ignored => exact .pure _
  | fail | ret => exact .throw _
  | «include» => exact .bind (.ofAct (spares_includeClasses hr _)) fun _ => .pure _
  | lookup => exact .ofAct (spares_lookupKey _ args)
  | defined => exact .bind (.ofAct (spares_anyDefined hr args)) fun _ => .pure _

/-- The arguments of a call are evaluated if there is a function of that name. -/
theorem passes_callFunction (hr : env.resolver.Spares Q) (name : String)
    {x : Eval η (List Value)} (hapart : Apart es) (hx : Passes number copy es x) :
    Passes number copy es (callFunction env name x) := by
  rw [callFunction_eq]
  refine .quiet_bind (.of_spares (.ending _ (hr.resolveFunction name))) hapart fun
    | none => .throw _
    | some d => .bind_quiet hapart hx fun args => .of_spares (.ending _ (.ending _ (hr.invoke d args)))

end Requests

/-- An assignment to anything but a variable fails at once. -/
theorem evaluates_invalidAssignment (target value : Expr) :
    Evaluates number copy (.assignment target value)
      (Eval.error .invalidAssignmentTarget : Eval η Value) where
  keeps := .throw _
  evaluated {m} hm :=
    { accounted := ((Passes.throw _).passed hm).accounted
      passes := nofun
      exposes := fun p hp f e hf _ => by
        have hcell := hm.fresh p.id (Within.self hp).mem_numbers
        exact absurd (hcell.symm.trans hf) nofun }

set_option linter.unusedSectionVars false

section Evaluation

variable {Q : Course η} {env : Env η} (hr : env.resolver.Spares Q) (hs : env.scope = .object number)

include hs

theorem keeps_assign (name : String) (o : Outcome) :
    Keeps number copy [] (env.scope.assign name o : Eval η Value) := by
  rw [hs]
  rcases o with (v | e | _) | v
  · exact .throw _
  · have hsound : (Property.ofError e).Sound := .of_none rfl (.inl ⟨rfl, rfl⟩)
    exact .quiet_bind (.update fun i => .setProperty i name hsound) fun _ => .pure _
  · exact .throw _
  · have hsound : (Property.ofValue v).check.Sound := .check_of_value rfl rfl
    exact .quiet_bind (.update fun i => .setProperty i name hsound) fun _ => .pure _

/-- The scope of an instance lets no error through. -/
theorem assign_ne_error (name : String) (o : Outcome) (m : Machine η) (e : EvalError) :
    ((env.scope.assign name o).run m).1 ≠ .error (.fault (.error e)) := by
  rw [hs]
  rcases o with (v | e' | _) | v <;> exact nofun

theorem keeps_declareResource (d : DeclaredResource) :
    Keeps number copy [] (env.scope.declareResource d : Eval η Unit) := by
  rw [hs]
  exact .update fun i => .of_properties rfl

/-- An assignment keeps an error of its right-hand side to itself. -/
theorem evaluates_assignment {target value : Expr} {name : String} (hapart : Apart [target, value])
    (hvalue : Passes number copy [value] (eval env value)) :
    Evaluates number copy (.assignment target value) (do
      let outcome ← Eval.attempt (eval env value)
      env.scope.assign name outcome) where
  keeps := by
    have hattempt : Keeps number copy [value] (Eval.attempt (eval env value)) := hvalue.keeps
    have hsub : numbers [value] ⊆ numbers [target, value] := numbers_mono (by simp)
    have hassign := hattempt.bind_quiet fun o => keeps_assign hs name o
    exact fun m hm => (hassign m (hm.mono hsub)).mono hsub
  evaluated {m} hm := by
    obtain ⟨-, -, hdisjoint⟩ := apart_append.mp (List.singleton_append ▸ hapart)
    have hready : m.Ready number copy [value] := hm.mono (numbers_mono (by simp [ExprKind.exprs]))
    have htarget : m.Ready number copy [target] := hm.mono (numbers_mono (by simp [ExprKind.exprs]))
    have ho := hvalue.keeps m hready
    have hnone : ((eval env value).run m).2.Ready number copy [] :=
      (hm.mono (by simp)).onto ho (by simp)
    have hassigned := keeps_assign hs name ((eval env value).run m).1 _ hnone
    -- The target is not evaluated, and the assignment itself touches no cell.
    have hpassed : Passed copy ([target] ++ [value]) ((eval env value).run m) :=
      .append (.of_fresh (htarget.onto ho hdisjoint.symm).fresh) (hvalue.passed hready)
    exact
      { accounted := fun n hn => (hpassed.accounted n hn).congr (hassigned.cells _ (by simp))
          fun p _ => hassigned.cells _ (by simp)
        passes := nofun
        exposes := fun _ _ _ e _ he => absurd he (assign_ne_error hs name _ _ e) }

include hr

theorem keeps_declareTitles (typeName : String) (attributes : Table String Value)
    (titles : List Value) : Keeps number copy [] (declareTitles env typeName attributes titles) := by
  induction titles with
  | nil => exact .pure []
  | cons title rest ih =>
    have hrest : ∀ v : Value, Keeps number copy [] (do
        return v :: (← declareTitles env typeName attributes rest) : Eval η (List Value)) :=
      fun v => .quiet_bind ih fun _ => .pure _
    unfold declareTitles
    simp only
    split
    · exact .quiet_bind (.of_spares (.ofAct (hr.resolveClass _))) fun _ => hrest _
    · exact .quiet_bind (keeps_declareResource hs _) fun _ => hrest _

mutual

theorem passes_eval : ∀ e : Expr, Apart [e] → Passes number env.copy [e] (eval env e)
  | .node id kind, h => by
    obtain ⟨hexprs, hid⟩ := apart_node.mp h
    simp only [eval]
    exact (evaluates_evalKind ⟨id, kind.name⟩ kind hexprs).memo hid

theorem evaluates_evalKind (node : NodeRef) : ∀ kind : ExprKind, Apart kind.exprs →
    Evaluates number env.copy kind (evalKind env node kind)
  | .literal _, _ | .default, _ | .nop, _ | .definition _, _ | .regex _, _ | .typeReference _, _
  | .qualifiedName _, _ => by
    simp only [evalKind]
    exact .of_passes (.pure _) rfl
  | .list items, h => by
    simp only [evalKind]
    exact .of_passes (.bind_quiet h (passes_evalAll items h) fun _ => .pure _) rfl
  | .hash entries, h => by
    simp only [evalKind]
    exact .of_passes (.bind_quiet h (passes_evalEntries entries [] h) fun _ => .pure _) rfl
  | .block statements, h => by
    simp only [evalKind]
    exact .of_passes (passes_evalSequence statements .undef h) rfl
  | .variable name, _ => by
    simp only [evalKind]
    exact .of_passes (.of_keeps (.of_spares (.ofAct (spares_lookupVariable hr name)))) rfl
  | .assignment target value, h => by
    cases ht : assignmentTarget? target with
    | none =>
      simp only [evalKind, ht]
      exact evaluates_invalidAssignment target value
    | some name =>
      simp only [evalKind, ht]
      exact evaluates_assignment hs h (passes_eval value h.tail)
  | .access target keys, h => by
    simp only [evalKind]
    exact .of_passes (.cons h (passes_eval target h.head) fun _ =>
      .bind_quiet h.tail (passes_evalAll keys h.tail) fun _ => .lift _) rfl
  | .call name args, h => by
    simp only [evalKind]
    refine .of_passes ?_ rfl
    split
    · exact .pure _
    · exact .bind_quiet h (passes_evalFirst args h) fun _ => .throw _
    · exact .bind_quiet h (passes_evalAll args h) fun vs => .of_spares (spares_builtin hr _ node vs)
    · exact passes_callFunction hr _ h (passes_evalAll args h)
  | .conditional test thenBranch elseBranch negated, h => by
    simp only [evalKind]
    refine .of_passes (.cons h (passes_eval test h.head) fun v => ?_) rfl
    obtain ⟨hthen, helse, -⟩ := apart_append.mp h.tail
    split
    · exact .right h.tail (passes_evalSequence elseBranch .undef helse)
    · exact .left h.tail (passes_evalSequence thenBranch .undef hthen)
  | .caseOf test options, h => by
    simp only [evalKind]
    exact .of_passes (.cons h (passes_eval test h.head) fun v => passes_evalCase v options h.tail) rfl
  | .selector test entries, h => by
    simp only [evalKind]
    exact .of_passes (.cons h (passes_eval test h.head) fun v =>
      passes_evalSelector v entries h.tail) rfl
  | .concat segments, h => by
    simp only [evalKind]
    exact .of_passes (.bind_quiet h (passes_evalConcat segments h) fun _ => .pure _) rfl
  | .str inner, h | .heredoc inner, h => by
    simp only [evalKind]
    exact .of_passes (.bind_quiet h (passes_eval inner h) fun _ => .pure _) rfl
  | .resource typeName bodies, h => by
    simp only [evalKind]
    exact .of_passes (.cons h (passes_eval typeName h.head) fun v =>
      .bind_quiet h.tail (passes_evalBodies _ bodies h.tail) fun _ => .pure _) rfl
  | .ret none, _ => by
    simp only [evalKind]
    exact .of_passes (.throw _) rfl
  | .ret (some value), h => by
    simp only [evalKind]
    exact .of_passes (.bind_quiet h (passes_eval value h) fun _ => .throw _) rfl
  | .binary op left right, h => by
    simp only [evalKind]
    refine .of_passes (.cons h (passes_eval left h.head) fun v => ?_) rfl
    split
    · exact .pure _
    · exact .bind_quiet h.tail (passes_eval right h.tail) fun w => .lift _
  | .unary op operand, h => by
    simp only [evalKind]
    exact .of_passes (.bind_quiet h (passes_eval operand h) fun v => .lift _) rfl
  | .paren inner, h => by
    simp only [evalKind]
    exact .of_passes (passes_eval inner h) rfl
  | .unsupported tag _, _ => by
    simp only [evalKind]
    exact .of_passes (.throw _) rfl

theorem passes_evalAll : ∀ es : List Expr, Apart es → Passes number env.copy es (evalAll env es)
  | [], _ => by
    simp only [evalAll]
    exact .pure []
  | e :: es, h => by
    simp only [evalAll]
    exact .cons h (passes_eval e h.head) fun v =>
      .bind_quiet h.tail (passes_evalAll es h.tail) fun vs => .pure _

theorem passes_evalFirst : ∀ es : List Expr, Apart es → Passes number env.copy es (evalFirst env es)
  | [], _ => by
    simp only [evalFirst]
    exact .pure _
  | e :: _, h => by
    simp only [evalFirst]
    exact .left h (passes_eval e h.head)

theorem passes_evalSequence : ∀ (es : List Expr) (last : Value), Apart es →
    Passes number env.copy es (evalSequence env last es)
  | [], last, _ => by
    simp only [evalSequence]
    exact .pure last
  | e :: es, last, h => by
    simp only [evalSequence]
    exact .cons h (passes_eval e h.head) fun v => passes_evalSequence es v h.tail

theorem passes_evalEntries : ∀ (es : List (Expr × Expr)) (done : Table String Value),
    Apart (es.flatMap fun e => [e.1, e.2]) →
    Passes number env.copy (es.flatMap fun e => [e.1, e.2]) (evalEntries env done es)
  | [], done, _ => by
    simp only [evalEntries]
    exact .pure done
  | (key, v) :: es, done, h => by
    simp only [evalEntries]
    exact .cons h (passes_eval key h.head) fun _ => .cons h.tail (passes_eval v h.tail.head) fun _ =>
      passes_evalEntries es _ h.tail.tail

theorem passes_evalConcat : ∀ es : List Expr, Apart es →
    Passes number env.copy es (evalConcat env es)
  | [], _ => by
    simp only [evalConcat]
    exact .pure ""
  | e :: es, h => by
    simp only [evalConcat]
    exact .cons h (passes_eval e h.head) fun v =>
      .bind_quiet h.tail (passes_evalConcat es h.tail) fun _ => .pure _

theorem passes_evalMatch (v : Value) : ∀ es : List Expr, Apart es →
    Passes number env.copy es (evalMatch env v es)
  | [], _ => by
    simp only [evalMatch]
    exact .pure false
  | e :: es, h => by
    simp only [evalMatch]
    refine .cons h (passes_eval e h.head) fun option => ?_
    split
    · exact .pure true
    · exact passes_evalMatch v es h.tail

theorem passes_evalCase (v : Value) : ∀ options : List CaseOption,
    Apart (options.flatMap fun o => o.values ++ o.body) →
    Passes number env.copy (options.flatMap fun o => o.values ++ o.body) (evalCase env v options)
  | [], _ => by
    simp only [evalCase]
    exact .pure _
  | ⟨values, body⟩ :: rest, h => by
    simp only [evalCase]
    rw [List.flatMap_cons, List.append_assoc] at h ⊢
    obtain ⟨hvalues, hrest, -⟩ := apart_append.mp h
    refine .bind h (passes_evalMatch v values hvalues) fun b => ?_
    split
    · exact .left hrest (passes_evalSequence body .undef (apart_append.mp hrest).1)
    · exact .right hrest (passes_evalCase v rest (apart_append.mp hrest).2.1)

theorem passes_evalSelector (v : Value) : ∀ entries : List (Expr × Expr),
    Apart (entries.flatMap fun e => [e.1, e.2]) →
    Passes number env.copy (entries.flatMap fun e => [e.1, e.2]) (evalSelector env v entries)
  | [], _ => by
    simp only [evalSelector]
    exact .throw _
  | (key, result) :: rest, h => by
    simp only [evalSelector]
    refine .cons h (passes_eval key h.head) fun option => ?_
    split
    · exact .left h.tail (passes_eval result h.tail.head)
    · exact .right h.tail (passes_evalSelector v rest h.tail.tail)

theorem passes_evalAttributes : ∀ (es : List (String × Expr)) (done : Table String Value),
    Apart (es.map (·.2)) →
    Passes number env.copy (es.map (·.2)) (evalAttributes env done es)
  | [], done, _ => by
    simp only [evalAttributes]
    exact .pure done
  | (name, e) :: rest, done, h => by
    simp only [evalAttributes]
    exact .cons h (passes_eval e h.head) fun v => passes_evalAttributes rest _ h.tail

theorem passes_evalBodies (typeName : String) : ∀ bodies : List ResourceBody,
    Apart (bodies.flatMap fun b => b.title :: b.attributes.map (·.2)) →
    Passes number env.copy (bodies.flatMap fun b => b.title :: b.attributes.map (·.2))
      (evalBodies env typeName bodies)
  | [], _ => by
    simp only [evalBodies]
    exact .pure []
  | ⟨title, attributes⟩ :: rest, h => by
    simp only [evalBodies]
    obtain ⟨hattributes, hrest, -⟩ := apart_append.mp h.tail
    refine .cons h (passes_eval title h.head) fun v => ?_
    refine .bind h.tail (passes_evalAttributes attributes [] hattributes) fun as => ?_
    exact .quiet_bind (keeps_declareTitles hr hs typeName as _) hrest fun refs =>
      .bind_quiet hrest (passes_evalBodies typeName rest hrest) fun _ => .pure _

end

end Evaluation

end Cascade
