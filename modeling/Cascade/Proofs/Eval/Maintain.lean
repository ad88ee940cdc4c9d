import Cascade.Proofs.Eval.Interrupts
import Cascade.Proofs.Eval.Traversal
import Cascade.Proofs.Eval.Uniform
/-!
What evaluations maintain. All that an evaluation does is to set cells of its copy, to change its scope,
to make requests and to register levels. What each of these maintains, every evaluation does, however
it ends, and so does whatever leads from an expression to a part of it that is evaluated.
-/
namespace Cascade

open Relation

variable {η : Type} {env : Env η} {C C' : (Instance → Instance) → Prop} {P P' : Machine η → Prop}

/-- Each single step of an evaluation maintains `P`. Changes of the instance are those that `C` allows. -/
structure Env.Upholds (env : Env η) (C : (Instance → Instance) → Prop) (P : Machine η → Prop) :
    Prop where
  setCell {m : Machine η} (node : Nat) (s : CellState) : P m → P (m.setCell env.copy node s)
  setFrame {m : Machine η} (frame : Table String Value) : env.scope = .frame → P m →
    P { m with frame := frame }
  update {m : Machine η} {number : Nat} {change : Instance → Instance} :
    env.scope = .object number → C change → P m → P (m.updateInstance number change)
  resolveClass (name : String) : Maintains P (env.resolver.resolveClass name)
  resolveFunction (name : String) : Maintains P (env.resolver.resolveFunction name)
  invoke (d : Definition) (args : List Value) : Maintains P (env.resolver.invoke d args)
  registerSource {m : Machine η} (name : String) (level : Nat) : P m →
    P { m with host := env.resolver.registerSource .property name level m.host }

theorem Env.Upholds.mono (h : env.Upholds C P) (hsub : ∀ change, C' change → C change) :
    env.Upholds C' P :=
  { h with update := fun hs hchange => h.update hs (hsub _ hchange) }

theorem Env.Upholds.and (h : env.Upholds C P) (h' : env.Upholds C P') :
    env.Upholds C fun m => P m ∧ P' m where
  setCell node s hm := ⟨h.setCell node s hm.1, h'.setCell node s hm.2⟩
  setFrame frame hs hm := ⟨h.setFrame frame hs hm.1, h'.setFrame frame hs hm.2⟩
  update hs hc hm := ⟨h.update hs hc hm.1, h'.update hs hc hm.2⟩
  resolveClass name m hm := ⟨h.resolveClass name m hm.1, h'.resolveClass name m hm.2⟩
  resolveFunction name m hm := ⟨h.resolveFunction name m hm.1, h'.resolveFunction name m hm.2⟩
  invoke d args m hm := ⟨h.invoke d args m hm.1, h'.invoke d args m hm.2⟩
  registerSource name level hm :=
    ⟨h.registerSource name level hm.1, h'.registerSource name level hm.2⟩

/-- A program maintains what its steps do. -/
theorem Uniform.maintains {k : Scope.Kind} {ε α : Type} [Bounded ε] {x : Program ε α}
    (h : Uniform k x) (hP : env.Upholds (fun _ => True) P) (hk : env.scope.kind = k) :
    Maintains P (x η env) := by
  induction h with
  | pure a => exact .pure a
  | throw e _ => exact .throw e
  | bind _ _ hx hf => exact .bind hx hf
  | ending _ _ hx => exact hx
  | memo node _ hx =>
    intro m hm
    rw [run_memo]
    rcases (m.cell env.copy node).begin with ⟨_ | o, s⟩
    · exact hP.setCell node _ (hx _ (hP.setCell node s hm))
    · exact hm
  | look _ hf => exact .look fun m _ => hf (env.sight m)
  | shown name =>
    intro m hm
    rw [run_shown]
    exact hP.resolveClass name m hm
  | resolveFunction name => exact hP.resolveFunction name
  | call name _ hx =>
    simp only [callFunction_eq]
    have hfound : Maintains P (Cascade.ending (Except.mapError .fault)
        (env.resolver.resolveFunction name) : Eval η (Option Definition)) :=
      hP.resolveFunction name
    refine .bind hfound fun found => ?_
    cases found with
    | none => exact .throw _
    | some d => exact .bind hx fun args => hP.invoke d args
  | registerSource name level => exact .modify fun m => hP.registerSource name level
  | setFrame name v hkind =>
    exact .modify fun m => hP.setFrame _ (Scope.eq_frame (hk.trans hkind))
  | update change hkind _ =>
    exact .modify fun m => hP.update (Scope.eq_object (hk.trans hkind)) trivial
  | congr _ heq hx =>
    rw [heq η env hk]
    exact hx

/-- Changes that leave the definition of an instance and its title alone. -/
def Instance.KeepsOutline (change : Instance → Instance) : Prop :=
  ∀ i, (change i).definition = i.definition ∧ (change i).title = i.title

section Evaluation

variable {m m' : Machine η}

open Instance (KeepsOutline)

namespace Env.Upholds

variable (hP : env.Upholds KeepsOutline P)

include hP

theorem setProperty {number : Nat} (hs : env.scope = .object number) (name : String) (p : Property)
    (hm : P m) : P (m.updateInstance number fun i =>
      { i with properties := i.properties.set name p }) :=
  hP.update hs (fun _ => ⟨rfl, rfl⟩) hm

theorem errand (h : Errand env m m') (hm : P m) : P m' := by
  cases h with
  | resolveClass name => exact hP.resolveClass name m hm
  | resolveFunction name => exact hP.resolveFunction name m hm
  | invoke d args => exact hP.invoke d args m hm
  | assign name v =>
    cases hs : env.scope with
    | frame => exact hP.setFrame _ hs hm
    | object number => exact hP.setProperty hs name _ hm
  | declareResource r =>
    cases hs : env.scope with
    | frame => exact hm
    | object number =>
      have hkeeps : KeepsOutline fun i => { i with resources := i.resources ++ [r] } :=
        fun _ => ⟨rfl, rfl⟩
      exact hP.update hs hkeeps hm

theorem asks {o o' : Order} {ps : List Expr} (h : Asks env o m ps m' o')
    (hps : ∀ p ∈ ps, Maintains P (eval env p)) (hm : P m) : P m' := by
  induction h with
  | nil o m => exact hm
  | errand he _ ih => exact ih hps (hP.errand he hm)
  | @part e next v o' m m' m'' ps hrun _ ih =>
    have hpart := hps e List.mem_cons_self m hm
    rw [hrun] at hpart
    exact ih (fun p hp => hps p (List.mem_cons_of_mem _ hp)) hpart

theorem evaluation {kind : ExprKind} {ps : List Expr} {q : Outcome × Machine η}
    (h : Evaluation env kind m ps q) (hps : ∀ p ∈ ps, Maintains P (eval env p)) (hm : P m) :
    P q.2 := by
  cases h with
  | strict _ h =>
    cases h with
    | done q ha => exact hP.asks ha hps hm
    | fails f ha => exact hP.asks ha hps hm
    | @interrupted m' m'' ps e next i ha hi =>
      have hbefore := hP.asks ha (fun p hp => hps p (List.mem_append_left _ hp)) hm
      have hlast := hps e (List.mem_append_right _ List.mem_cons_self) m' hbefore
      rwa [hi] at hlast
  | @captured target value name number e m' _ _ hs hv =>
    have hvalue := hps value List.mem_cons_self m hm
    rw [hv] at hvalue
    exact hP.setProperty hs name _ hvalue

/-- The evaluation of an expression maintains what its steps do. -/
theorem eval (e : Expr) : Maintains P (eval env e) := by
  induction e using Expr.of_parts with
  | h id kind ih =>
    intro m hm
    rcases CellState.begin_cases (m.cell env.copy id) with hc | hc | ⟨o, hc⟩
    · obtain ⟨ps, q, hq, hrun⟩ := run_eval kind hc
      rw [hrun]
      have hparts : ∀ p ∈ ps, Maintains P (Cascade.eval env p) :=
        fun p hp => ih p (hq.sublist.subset hp)
      exact hP.setCell id _ (hP.evaluation hq hparts (hP.setCell id .resolving hm))
    · rw [Cascade.eval, run_memo, hc]
      exact hm
    · rw [Cascade.eval, run_memo, hc, CellState.begin_ofOutcome]
      exact hm

theorem evalSequence (es : List Expr) (last : Value) : Maintains P (evalSequence env last es) := by
  induction es generalizing last with
  | nil =>
    simp only [Cascade.evalSequence]
    exact .pure last
  | cons e es ih =>
    simp only [Cascade.evalSequence]
    exact .bind (hP.eval e) ih

theorem declaredType (p : Param) : Maintains P (declaredType env p) := by
  cases ht : p.type with
  | none =>
    unfold Cascade.declaredType
    rw [ht]
    exact .pure _
  | some e =>
    intro m hm
    rw [run_declaredType ht]
    exact hP.eval e m hm

theorem declaredDefault (p : Param) : Maintains P (declaredDefault env p) := by
  unfold Cascade.declaredDefault
  cases p.default with
  | none => exact .pure _
  | some e =>
    have hsettled : Maintains P (Act.attempt (Eval.settle (Cascade.eval env e))) := by
      intro m hm
      rw [run_attempt, run_settle]
      exact hP.eval e m hm
    refine .bind hsettled fun o => ?_
    rcases o with (e | _) | v
    · exact .pure _
    · exact .throw _
    · exact .pure _

theorem override? (i : Instance) (param : String) :
    Maintains P (override? env.resolver i param) := by
  unfold Cascade.override?
  cases i.seeds with
  | some seeds => exact .pure _
  | none =>
    refine .look fun m _ => ?_
    simp only
    split
    · exact .pure _
    · exact .pure _
    · split
      · exact .bind (.modify fun m => hP.registerSource _ _) fun _ => .pure _
      · exact .pure _

theorem resolveParam {number : Nat} (hs : env.scope = .object number) (i : Instance) (p : Param) :
    Maintains P (resolveParam env number i p) := by
  have hlevel (level : Nat) : Maintains P (modify fun m => m.updateInstance number fun i =>
      { i with overrides := i.overrides.set p.name level } : Act η PUnit) :=
    .modify fun m => hP.update hs fun _ => ⟨rfl, rfl⟩
  unfold Cascade.resolveParam
  refine .bind (hP.declaredType p) fun typed => ?_
  refine .bind (hP.declaredDefault p) fun default => ?_
  refine .bind (hP.override? i p.name) fun seed => ?_
  rcases seed with _ | seed
  · rcases default with _ | (e | v) <;> exact .pure _
  · simp only
    split
    · exact .bind (hlevel _) fun _ => .pure _
    · exact .pure _

/-- The resolution of parameters maintains what its steps do. -/
theorem resolveParams {number : Nat} (hs : env.scope = .object number) (i : Instance)
    (params : List Param) : Maintains P (resolveParams env number i params) := by
  induction params with
  | nil => exact .pure ()
  | cons p params ih =>
    unfold Cascade.resolveParams
    refine .bind (hP.resolveParam hs i p) fun property => ?_
    exact .bind (.modify fun m => hP.setProperty hs p.name property) fun _ => ih

end Env.Upholds

/-- An evaluation turns from a node that it has begun to a part of it. -/
inductive Turn (env : Env η) : Expr × Machine η → Expr × Machine η → Prop
  | part {id : Nat} {kind : ExprKind} {m m' : Machine η} {ps : List Expr} {e : Expr}
      {next : Value → Order} : m.cell env.copy id = .unresolved →
      Asks env kind.order (m.setCell env.copy id .resolving) ps m' (.ask e next) →
      Turn env (.node id kind, m) (e, m')

/-- Up to every part that is evaluated the steps have maintained what they do. -/
theorem Env.Upholds.turns (hP : env.Upholds KeepsOutline P) {q q' : Expr × Machine η}
    (h : ReflTransGen (Turn env) q q') (hq : P q.2) : P q'.2 := by
  induction h with
  | refl => exact hq
  | tail _ hturn ih =>
    cases hturn with
    | part _ ha => exact hP.asks ha (fun p _ => hP.eval p) (hP.setCell _ _ ih)

section Touched

variable {Q : Course η} {k : Nat}

/-- The cell of a node is unresolved before `x`, and no longer so after it. -/
structure Touches (copy k : Nat) {ε α : Type} (x : ExceptT ε (StateM (Machine η)) α)
    (m : Machine η) : Prop where
  lt : copy < m.copies
  before : m.cell copy k = .unresolved
  after : (x.run m).2.cell copy k ≠ .unresolved

theorem copies_le_eval (hr : env.resolver.Spares Q) (e : Expr) (m : Machine η) :
    m.copies ≤ ((eval env e).run m).2.copies :=
  ((uniform_eval e).spares hr (s := ⟨env.scope, env.copy⟩) rfl m).after.copies_le

theorem Asks.copies_le {o o' : Order} {ps : List Expr} (h : Asks env o m ps m' o')
    (hr : env.resolver.Spares Q) (hm : env.copy < m.copies) : m.copies ≤ m'.copies := by
  induction h with
  | nil o m => exact le_rfl
  | errand he _ ih =>
    have hle := (he.inside hr hm : Machine.Inside env.copy [] _ _).copies_le
    exact hle.trans (ih (hm.trans_le hle))
  | @part e next v o' m m' m'' ps hrun _ ih =>
    have hle := copies_le_eval hr e m
    rw [hrun] at hle
    exact hle.trans (ih (hm.trans_le hle))

/-- While parts are asked for, a cell is touched by one of them. -/
theorem Asks.exists_touches {o o' : Order} {ps : List Expr} (h : Asks env o m ps m' o')
    (hr : env.resolver.Spares Q) (hm : env.copy < m.copies)
    (hbefore : m.cell env.copy k = .unresolved) (hafter : m'.cell env.copy k ≠ .unresolved) :
    ∃ ps₁ p next m₁, p ∈ ps ∧ Asks env o m ps₁ m₁ (.ask p next) ∧
      Touches env.copy k (eval env p) m₁ := by
  induction h with
  | nil o m => exact absurd hbefore hafter
  | errand he _ ih =>
    have hin : Machine.Inside env.copy [] _ _ := he.inside hr hm
    have hsame := hin.cells k (by simp)
    obtain ⟨ps₁, p, next, m₁, hp, ha, ht⟩ := ih (hm.trans_le hin.copies_le)
      (hsame.trans hbefore) hafter
    exact ⟨ps₁, p, next, m₁, hp, .errand he ha, ht⟩
  | @part e next v o' m m' m'' ps hrun _ ih =>
    have hle := copies_le_eval hr e m
    rw [hrun] at hle
    by_cases hmiddle : m'.cell env.copy k = .unresolved
    · obtain ⟨ps₁, p, next, m₁, hp, ha, ht⟩ := ih (hm.trans_le hle) hmiddle hafter
      exact ⟨e :: ps₁, p, next, m₁, List.mem_cons_of_mem _ hp, .part hrun ha, ht⟩
    · refine ⟨[], e, next, m, List.mem_cons_self, .nil _ m, hm, hbefore, ?_⟩
      rw [hrun]
      exact hmiddle

theorem Evaluation.exists_touches {kind : ExprKind} {ps : List Expr} {q : Outcome × Machine η}
    (h : Evaluation env kind m ps q) (hr : env.resolver.Spares Q) (hm : env.copy < m.copies)
    (hbefore : m.cell env.copy k = .unresolved) (hafter : q.2.cell env.copy k ≠ .unresolved) :
    ∃ ps₁ p next m₁, p ∈ ps ∧ Asks env kind.order m ps₁ m₁ (.ask p next) ∧
      Touches env.copy k (eval env p) m₁ := by
  cases h with
  | strict _ h =>
    cases h with
    | done q ha => exact ha.exists_touches hr hm hbefore hafter
    | fails f ha => exact ha.exists_touches hr hm hbefore hafter
    | @interrupted m' m'' ps e next i ha hi =>
      by_cases hmiddle : m'.cell env.copy k = .unresolved
      · have htouch : Touches env.copy k (eval env e) m' :=
          ⟨hm.trans_le (ha.copies_le hr hm), hmiddle, by rwa [hi]⟩
        exact ⟨ps, e, next, m', by simp, ha, htouch⟩
      · obtain ⟨ps₁, p, next, m₁, hp, ha, ht⟩ := ha.exists_touches hr hm hbefore hmiddle
        exact ⟨ps₁, p, next, m₁, List.mem_append_left _ hp, ha, ht⟩
  | @captured target value name number e m' hk ht hs hv =>
    subst hk
    have horder : (ExprKind.assignment target value).order = .ask value fun _ => .stop := by
      simp [ExprKind.order, ht, Order.inTurn]
    have htouch : Touches env.copy k (eval env value) m := by
      refine ⟨hm, hbefore, ?_⟩
      rw [hv]
      rwa [Machine.cell_updateInstance] at hafter
    refine ⟨[], value, fun _ => .stop, m, List.mem_singleton_self _, ?_, htouch⟩
    rw [horder]
    exact .nil _ m

/-- To every node that it evaluates for the first time an evaluation has turned. -/
theorem Touches.exists_turns {e : Expr} (h : Touches env.copy k (eval env e) m)
    (hr : env.resolver.Spares Q) : ∃ kind m', ReflTransGen (Turn env) (e, m) (.node k kind, m') ∧
      m'.cell env.copy k = .unresolved := by
  induction e using Expr.of_parts generalizing m with
  | h id kind ih =>
    obtain ⟨hm, hbefore, hafter⟩ := h
    by_cases hk : id = k
    · subst hk
      exact ⟨kind, m, .refl, hbefore⟩
    · rcases CellState.begin_cases (m.cell env.copy id) with hc | hc | ⟨o, hc⟩
      · obtain ⟨ps, q, hq, hrun⟩ := run_eval kind hc
        have hset (m : Machine η) (s : CellState) :
            (m.setCell env.copy id s).cell env.copy k = m.cell env.copy k := by
          rw [Machine.cell_setCell, if_neg fun h => hk h.2]
        rw [hrun, hset] at hafter
        obtain ⟨ps₁, p, next, m₁, hp, ha, htouch⟩ := hq.exists_touches hr hm
          ((hset m _).trans hbefore) hafter
        obtain ⟨kind', m', hturns, hcell⟩ := ih p (hq.sublist.subset hp) htouch
        exact ⟨kind', m', .head (.part hc ha) hturns, hcell⟩
      -- A node that is resolved already evaluates nothing.
      · rw [eval, run_memo, hc] at hafter
        exact absurd hbefore hafter
      · rw [eval, run_memo, hc, CellState.begin_ofOutcome] at hafter
        exact absurd hbefore hafter

/-- Among statements it is one of them that touches a cell. -/
theorem exists_touches_of_evalSequence {es : List Expr} {last : Value} (hr : env.resolver.Spares Q)
    (h : Touches env.copy k (evalSequence env last es) m) : ∃ before s after v m₁,
      es = before ++ s :: after ∧ (evalSequence env last before).run m = (.ok v, m₁) ∧
        Touches env.copy k (eval env s) m₁ := by
  induction es generalizing last m with
  | nil =>
    obtain ⟨-, hbefore, hafter⟩ := h
    exact absurd hbefore hafter
  | cons e es ih =>
    obtain ⟨hm, hbefore, hafter⟩ := h
    by_cases hfirst : ((eval env e).run m).2.cell env.copy k = .unresolved
    · have hle := copies_le_eval hr e m
      rw [evalSequence, run_bind] at hafter
      rcases hrun : (eval env e).run m with ⟨f | v, m'⟩
      · rw [hrun] at hfirst hafter
        exact absurd hfirst hafter
      · rw [hrun] at hfirst hafter hle
        obtain ⟨before, s, after, w, m₁, rfl, hbefore', htouch⟩ :=
          ih ⟨hm.trans_le hle, hfirst, hafter⟩
        refine ⟨e :: before, s, after, w, m₁, rfl, ?_, htouch⟩
        rw [evalSequence, run_bind, hrun]
        exact hbefore'
    · exact ⟨[], e, es, last, m, rfl, rfl, hm, hbefore, hfirst⟩

end Touched

end Evaluation

end Cascade
