import Cascade.Proofs.Eval.Passing
import Cascade.Proofs.Eval.Protocol
/-!
The failure of a property is recorded with it and goes no further. An instance fails to resolve if and
only if the class it inherits does, or if a node of its body raises an error that is not below an
assignment. However it ends, its properties are sound; and if it ends well, all its parameters are
among them.
-/
namespace Cascade

open Machine

variable {η : Type} {number copy : Nat}

/-- `x` fails with nothing but a lack of depth, and gives only what `P` allows. -/
def Gives {α : Type} (P : α → Prop) (x : Act η α) : Prop :=
  ∀ m : Machine η, (x.run m).1 = .error .exhausted ∨ ∃ a, (x.run m).1 = .ok a ∧ P a

namespace Gives

variable {α β : Type} {P : α → Prop} {R : β → Prop} {x : Act η α}

theorem pure {a : α} (ha : P a) : Gives P (Pure.pure a : Act η α) := fun _ => .inr ⟨a, rfl, ha⟩

theorem bind (hx : Gives P x) {f : α → Act η β} (hf : ∀ a, P a → Gives R (f a)) :
    Gives R (x >>= f) := by
  intro m
  rw [run_bind]
  rcases hx m with he | ⟨a, ha, hP⟩
  · rcases hrun : x.run m with ⟨o, m'⟩
    rw [hrun] at he
    rw [show o = _ from he]
    exact .inl rfl
  · rcases hrun : x.run m with ⟨o, m'⟩
    rw [hrun] at ha
    rw [show o = _ from ha]
    exact hf a hP m'

theorem look {f : Machine η → Act η α} (hf : ∀ m, Gives P (f m)) : Gives P (get >>= f) :=
  fun m => hf m m

theorem modify (f : Machine η → Machine η) : Gives (fun _ => True) (modify f : Act η PUnit) :=
  fun _ => .inr ⟨⟨⟩, rfl, trivial⟩

end Gives

variable {env : Env η} {p : Param}

theorem gives_declaredType (env : Env η) (p : Param) :
    Gives (fun typed => typed.value = none ∧ typed.hints = []) (declaredType env p) := by
  cases ht : p.type with
  | none =>
    unfold declaredType
    rw [ht]
    exact .pure ⟨rfl, rfl⟩
  | some e =>
    intro m
    rw [run_declaredType ht]
    rcases ((eval env e).run m).1 with (v | (e | _)) | v
    · exact .inr ⟨_, rfl, rfl, rfl⟩
    · exact .inr ⟨_, rfl, rfl, rfl⟩
    · exact .inl rfl
    · cases v <;> exact .inr ⟨_, rfl, rfl, rfl⟩

theorem gives_declaredDefault (env : Env η) (p : Param) :
    Gives (fun _ => True) (declaredDefault env p) := by
  unfold declaredDefault
  cases p.default with
  | none => exact .pure trivial
  | some e =>
    intro m
    rw [run_bind, run_attempt]
    rcases ((Eval.settle (eval env e)).run m) with ⟨(e | _) | v, m'⟩
    · exact .inr ⟨_, rfl, trivial⟩
    · exact .inl rfl
    · exact .inr ⟨_, rfl, trivial⟩

theorem gives_override? (r : Resolver η) (i : Instance) (param : String) :
    Gives (fun _ => True) (override? r i param) := by
  unfold override?
  cases i.seeds with
  | some seeds => exact .pure trivial
  | none =>
    refine .look fun m => ?_
    simp only
    split
    · exact .pure trivial
    · exact .pure trivial
    · split
      · exact .bind (.modify _) fun _ _ => .pure trivial
      · exact .pure trivial

/-- A parameter always comes to a sound property. -/
theorem gives_resolveParam (env : Env η) (number : Nat) (i : Instance) (p : Param) :
    Gives Property.Sound (resolveParam env number i p) := by
  unfold resolveParam
  refine .bind (gives_declaredType env p) fun typed ⟨hvalue, hhints⟩ => ?_
  refine .bind (gives_declaredDefault env p) fun default _ => ?_
  refine .bind (gives_override? env.resolver i p.name) fun seed _ => ?_
  cases seed with
  | some seed =>
    have hsound := Property.Sound.check_of_value (v := seed.value) (p := { typed with
      default := default.bind (·.toOption), value := some seed.value }) rfl hhints
    simp only
    split
    · exact .bind (.modify _) fun _ _ => .pure hsound
    · exact .pure hsound
  | none =>
    rcases default with _ | e | v
    · exact .pure (.check_of_none hvalue (.inr (by simp [hhints])))
    · exact .pure (.check_of_none hvalue (.inl ⟨hhints, rfl⟩))
    · exact .pure (.check_of_value rfl hhints)

theorem spares_override? {Q : Course η} {r : Resolver η} (hr : r.Spares Q) (i : Instance)
    (param : String) : Spares Q ∅ (override? r i param) := by
  have hregister : ∀ level, Spares Q ∅ (modify fun m => { m with
      host := r.registerSource .property (i.name ++ "::" ++ param) level m.host } : Act η PUnit) :=
    fun level m => .of_host ∅ (hr.registerSource _ level m.host)
  unfold override?
  cases i.seeds with
  | some seeds => exact .pure _
  | none =>
    refine .look fun m => ?_
    simp only
    split
    · exact .pure _
    · exact .pure _
    · split
      · exact .bind (hregister _) fun _ => .pure _
      · exact .pure _

theorem settled_eq_error {o : Outcome} {f : Fault} :
    settled o = .error f ↔ o = .error (.fault f) := by
  rcases o with (v | g) | v <;> simp [settled]

section Parameters

variable {Q : Course η} (hr : env.resolver.Spares Q) (hs : env.scope = .object number)

include hr hs

theorem keeps_declaredType (h : Apart p.type.toList) :
    Keeps number env.copy p.type.toList (declaredType env p) := by
  cases ht : p.type with
  | none =>
    unfold declaredType
    rw [ht]
    exact .pure _
  | some e =>
    rw [ht] at h
    intro m hm
    rw [run_declaredType ht]
    exact (passes_eval hr hs e h).keeps m hm

theorem keeps_declaredDefault (h : Apart p.default.toList) :
    Keeps number env.copy p.default.toList (declaredDefault env p) := by
  unfold declaredDefault
  cases hd : p.default with
  | none => exact .pure _
  | some e =>
    rw [hd] at h
    have hsettled : Keeps number env.copy [e] (Act.attempt (Eval.settle (eval env e))) := by
      intro m hm
      rw [run_attempt, run_settle]
      exact (passes_eval hr hs e h).keeps m hm
    refine .bind_quiet hsettled fun o => ?_
    rcases o with (e | _) | v
    · exact .pure _
    · exact .throw _
    · exact .pure _

theorem keeps_resolveParam (i : Instance) (h : Apart p.exprs) :
    Keeps number env.copy p.exprs (resolveParam env number i p) := by
  obtain ⟨htype, hdefault, hdisjoint⟩ := apart_append.mp h
  unfold resolveParam
  refine .bind hdisjoint (keeps_declaredType hr hs htype) fun typed => ?_
  refine .bind_quiet (keeps_declaredDefault hr hs hdefault) fun default => ?_
  refine .bind_quiet (.of_spares (spares_override? hr i p.name)) fun seed => ?_
  rcases seed with _ | seed
  · rcases default with _ | (e | v) <;> exact .pure _
  · have hupdate : ∀ level, Keeps number env.copy [] (modify fun m => m.updateInstance number
        fun i => { i with overrides := i.overrides.set p.name level } : Act η PUnit) :=
      fun level => .update fun i => .of_properties rfl
    simp only
    split
    · exact .bind_quiet (hupdate _) fun _ => .pure _
    · exact .pure _

/-- When all parameters have been resolved, each of them is a property. -/
theorem onto_resolveParams (i : Instance) {params : List Param}
    (h : Apart (params.flatMap Param.exprs)) {m : Machine η}
    (hm : m.Ready number env.copy (params.flatMap Param.exprs)) {i₀ : Instance}
    (hi₀ : m.instance? number = some i₀) :
    let q := (resolveParams env number i params).run m
    m.Onto number env.copy (params.flatMap Param.exprs) q.2 ∧
      (q.1 = .error .exhausted ∨ q.1 = .ok () ∧ ∃ i', q.2.instance? number = some i' ∧
        ∀ p ∈ params, (i'.properties.get? p.name).isSome) := by
  induction params generalizing m i₀ with
  | nil => exact ⟨.refl m, .inr ⟨rfl, i₀, hi₀, fun _ hp => absurd hp List.not_mem_nil⟩⟩
  | cons p params ih =>
    obtain ⟨hp, hparams, hdisjoint⟩ := apart_append.mp h
    have hleft : numbers p.exprs ⊆ numbers ((p :: params).flatMap Param.exprs) := by simp
    have hright : numbers (params.flatMap Param.exprs) ⊆
        numbers ((p :: params).flatMap Param.exprs) := by simp
    have ho := keeps_resolveParam hr hs i hp m (hm.mono hleft)
    have hgives := gives_resolveParam env number i p m
    simp only [resolveParams, run_bind]
    rcases hrun : (resolveParam env number i p).run m with ⟨o, m₁⟩
    rw [hrun] at ho hgives
    rcases hgives with rfl | ⟨property, rfl, hsound⟩
    · exact ⟨ho.mono hleft, .inl rfl⟩
    · obtain ⟨i₁, hi₁, -⟩ := ho.grows hi₀
      have hset := ho.trans (.update (fun i => .setProperty i p.name hsound) m₁)
      have hi₂ : (m₁.updateInstance number fun i =>
          { i with properties := i.properties.set p.name property }).instance? number =
            some { i₁ with properties := i₁.properties.set p.name property } := by
        rw [instance?_updateInstance, if_pos rfl, hi₁]
        rfl
      obtain ⟨ho', hend⟩ := ih hparams ((hm.mono hright).onto hset hdisjoint) hi₂
      refine ⟨(hset.mono hleft).trans (ho'.mono hright), hend.imp id ?_⟩
      rintro ⟨hok, i', hi', hall⟩
      refine ⟨hok, i', hi', fun p' hp' => ?_⟩
      rcases List.mem_cons.mp hp' with rfl | hp'
      · obtain ⟨i'', hi'', hgrows⟩ := ho'.grows hi₂
        obtain rfl := Option.some.inj (hi'.symm.trans hi'')
        exact hgrows.kept (by simp)
      · exact hall p' hp'

omit hr hs in
/-- The cell of an expression keeps what its evaluation comes to. -/
theorem cell_eval {e : Expr} {m : Machine η} (hm : m.Ready number env.copy [e]) :
    ((eval env e).run m).2.cell env.copy e.id = .ofOutcome ((eval env e).run m).1 := by
  obtain ⟨id, kind⟩ := e
  have hfresh := hm.fresh id (numbers_node ▸ Set.mem_insert _ _)
  simp only [eval, run_memo_unresolved hfresh]
  simp [Expr.id]

/-- Statements fail with nothing but the failure of one of them. -/
theorem failed_of_evalSequence {es : List Expr} {last : Value} {f : Fault} (h : Apart es)
    {m : Machine η} (hm : m.Ready number env.copy es)
    (hfails : ((evalSequence env last es).run m).1 = .error (.fault f)) :
    ∃ p ∈ es, ((evalSequence env last es).run m).2.cell env.copy p.id = .failed f := by
  induction es generalizing last m with
  | nil =>
    simp only [evalSequence] at hfails
    exact absurd hfails nofun
  | cons e es ih =>
    obtain ⟨-, -, hdisjoint⟩ := apart_append.mp (List.singleton_append ▸ h)
    have hhead : m.Ready number env.copy [e] := hm.mono (numbers_mono (by simp))
    have hlater : m.Ready number env.copy es := hm.mono (numbers_mono (by simp +contextual))
    have hcell := cell_eval hhead
    have htail := hlater.onto ((passes_eval hr hs e h.head).keeps m hhead) hdisjoint
    simp only [evalSequence, run_bind] at hfails ⊢
    rcases hrun : (eval env e).run m with ⟨o, m'⟩
    rw [hrun] at hcell hfails htail
    cases o with
    | error interrupt =>
      have hsame : (Except.error interrupt : Outcome) = .error (.fault f) :=
        congrArg Except.error (Except.error.inj hfails)
      exact ⟨e, List.mem_cons_self, hcell.trans (CellState.ofOutcome_eq_failed.mpr hsame)⟩
    | ok v =>
      obtain ⟨p, hp, hf⟩ := ih h.tail htail hfails
      exact ⟨p, List.mem_cons_of_mem _ hp, hf⟩

/-- Statements fail if and only if a node that is not below an assignment raises the error. -/
theorem evalStatements_failed_iff {es : List Expr} (h : Apart es) {m : Machine η}
    (hm : m.Ready number env.copy es) (e : EvalError) :
    ((evalStatements env es).run m).1 = .error (.error e) ↔
      ∃ n, Exposed n es ∧ Raises (((evalStatements env es).run m).2.cell env.copy) n e := by
  have hpassed := (passes_evalSequence hr hs es .undef h).passed hm
  rw [evalStatements, run_settle, settled_eq_error]
  refine Iff.trans ⟨fun hfails => ?_, fun ⟨p, hp, hf⟩ => ?_⟩
    (exists_failed_iff h hpassed.accounted)
  · exact failed_of_evalSequence hr hs h hm hfails
  · exact hpassed.passes p hp _ hf

/-- Parameters and then statements: no error of the parameters counts. -/
theorem run_paramsAndBody (i : Instance) {params : List Param} {body : List Expr}
    (h : Apart (params.flatMap Param.exprs ++ body)) {m : Machine η}
    (hm : m.Ready number env.copy (params.flatMap Param.exprs ++ body)) {i₀ : Instance}
    (hi₀ : m.instance? number = some i₀) :
    let q := (do resolveParams env number i params; let _ ← evalStatements env body : Act η Unit).run m
    m.Onto number env.copy (params.flatMap Param.exprs ++ body) q.2 ∧
      (∀ e, q.1 = .error (.error e) ↔ ∃ n, Exposed n body ∧ Raises (q.2.cell env.copy) n e) ∧
      (q.1 = .ok () → ∃ i', q.2.instance? number = some i' ∧
        ∀ p ∈ params, (i'.properties.get? p.name).isSome) := by
  obtain ⟨hparams, hbody, hdisjoint⟩ := apart_append.mp h
  have hleft : numbers (params.flatMap Param.exprs) ⊆
      numbers (params.flatMap Param.exprs ++ body) := by simp
  have hright : numbers body ⊆ numbers (params.flatMap Param.exprs ++ body) := by simp
  obtain ⟨ho, hend⟩ := onto_resolveParams hr hs i hparams (hm.mono hleft) hi₀
  have hlater := (hm.mono hright).onto ho hdisjoint
  rw [run_bind]
  rcases hrun : (resolveParams env number i params).run m with ⟨o, m₁⟩
  rw [hrun] at ho hend hlater
  rcases hend with rfl | ⟨rfl, i₁, hi₁, hall⟩
  · refine ⟨ho.mono hleft, fun e => ⟨nofun, ?_⟩, nofun⟩
    rintro ⟨n, hn, hraises⟩
    have hcell := hlater.fresh n.id hn.within.mem_numbers
    exact absurd (hcell.symm.trans hraises.failed) nofun
  · have ho' : m₁.Onto number env.copy body ((evalStatements env body).run m₁).2 := by
      rw [evalStatements, run_settle]
      exact (passes_evalSequence hr hs body .undef hbody).keeps m₁ hlater
    have hfails := evalStatements_failed_iff hr hs hbody hlater
    simp only [run_bind_const]
    refine ⟨(ho.mono hleft).trans (ho'.mono hright), fun e => ?_, fun _ => ?_⟩
    · rw [← hfails]
      cases ((evalStatements env body).run m₁).1 <;> simp [Except.map]
    · obtain ⟨i₂, hi₂, hgrows⟩ := ho'.grows hi₁
      exact ⟨i₂, hi₂, fun p hp => hgrows.kept (hall p hp)⟩

end Parameters

/-- The next instance may be resolved: nothing is known about its copy. -/
theorem Machine.Numbered.ready {m : Machine η} (hm : m.Numbered) (d : Definition)
    (title : Option String) (seeds : Option (Table String Seed)) (es : List Expr) :
    (m.withInstance d title seeds).Ready m.instances.length m.copies es where
  copy_lt := Nat.lt_succ_self _
  number_lt := (Nat.lt_succ_self _).trans_eq hm.length_withInstance.symm
  fresh k _ := m.cell_newCopy_self k

/-- The class that a definition inherits fails with an error. -/
def Resolver.ParentFails (r : Resolver η) (d : Definition) (m : Machine η) (e : EvalError) : Prop :=
  ∃ parent, d.parent = some parent ∧ ((r.resolveClass parent).run m).1 = .error (.error e)

/-- The failures of properties are no failures of the instance. It fails with an error if and only if
the class it inherits fails with it, or a node of its body raises it that is not below an assignment:
no error in a parameter or in what is assigned counts. Every property of it is sound, and if it does
not fail, all its parameters are properties. -/
theorem resolveInstance_isolates {Q : Course η} {r : Resolver η} (hr : r.Spares Q) {m : Machine η}
    (hm : m.Numbered) (d : Definition) (hapart : Apart d.exprs) (title : Option String)
    (seeds : Option (Table String Seed)) :
    let m₀ := m.withInstance d title seeds
    let q := (resolveInstance r m.instances.length).run m₀
    (∀ e, q.1 = .error (.error e) ↔ r.ParentFails d m₀ e ∨
      ∃ n, Exposed n d.body ∧ Raises (q.2.cell m.copies) n e) ∧
    ∃ i, q.2.instance? m.instances.length = some i ∧
      (q.1 = .ok () → ∀ p ∈ d.params, (i.properties.get? p.name).isSome) ∧
      ∀ name p, i.properties.get? name = some p → p.Sound := by
  intro m₀ q
  let env : Env η := ⟨r, .object m.instances.length, m.copies⟩
  have hq : q = (instanceSteps (Instance.create d title seeds 0) η env).run m₀ :=
    run_resolveInstance_new r d title seeds m m.host
  have hsteps := (apart_append.mp hapart).1
  have hm₀ := hm.ready d title seeds (d.params.flatMap Param.exprs ++ d.body)
  have hi₀ : m₀.instance? m.instances.length = some (Instance.create d title seeds m.copies) :=
    m.instance?_withInstance_self
  have hsound : ∀ {i : Instance}, (Instance.create d title seeds m.copies).Grows i →
      ∀ name p, i.properties.get? name = some p → p.Sound := by
    intro i hgrows name p hp
    rcases hgrows.sound hp with hnone | hp
    · exact absurd hnone nofun
    · exact hp
  -- What the class it inherits leaves of the machine makes no difference to the rest.
  have hrest : ∀ m₁, m₀.Onto m.instances.length m.copies [] m₁ → (∀ e, ¬r.ParentFails d m₀ e) →
      q = (do
        resolveParams env m.instances.length (Instance.create d title seeds 0) d.params
        let _ ← evalStatements env d.body : Act η Unit).run m₁ →
      (∀ e, q.1 = .error (.error e) ↔ r.ParentFails d m₀ e ∨
        ∃ n, Exposed n d.body ∧ Raises (q.2.cell m.copies) n e) ∧
      ∃ i, q.2.instance? m.instances.length = some i ∧
        (q.1 = .ok () → ∀ p ∈ d.params, (i.properties.get? p.name).isSome) ∧
        ∀ name p, i.properties.get? name = some p → p.Sound := by
    intro m₁ ho hparent hrun
    obtain ⟨i₁, hi₁, hgrows₁⟩ := ho.grows hi₀
    obtain ⟨ho', hfails, hdeclared⟩ := run_paramsAndBody
      (show env.resolver.Spares Q from hr) rfl (Instance.create d title seeds 0) hsteps
      (hm₀.onto ho (by simp)) hi₁
    rw [← hrun] at ho' hfails hdeclared
    obtain ⟨i, hi, hgrows⟩ := ho'.grows hi₁
    refine ⟨fun e => (hfails e).trans (or_iff_right (hparent e)).symm, i, hi, fun hok => ?_,
      hsound (hgrows₁.trans hgrows)⟩
    obtain ⟨i', hi', hall⟩ := hdeclared hok
    rwa [← Option.some.inj (hi.symm.trans hi')] at hall
  cases hparent : d.parent with
  | none =>
    refine hrest m₀ (.refl m₀) (fun e ⟨parent, hp, _⟩ => ?_) ?_
    · exact absurd (hparent.symm.trans hp) nofun
    · rw [hq]
      simp only [instanceSteps, Instance.parent, Instance.create, hparent]
      rfl
  | some parent =>
    have hrun : q = ((do
        let _ ← r.resolveClass parent
        resolveParams env m.instances.length (Instance.create d title seeds 0) d.params
        let _ ← evalStatements env d.body) : Act η Unit).run m₀ := by
      rw [hq]
      simp only [instanceSteps, Instance.parent, Instance.create, hparent]
      rfl
    have ho : m₀.Onto m.instances.length m.copies [] ((r.resolveClass parent).run m₀).2 :=
      Keeps.of_spares (hr.resolveClass parent) m₀ (hm.ready d title seeds [])
    have hiff : ∀ e, r.ParentFails d m₀ e ↔
        ((r.resolveClass parent).run m₀).1 = .error (.error e) := by
      simp [Resolver.ParentFails, hparent]
    rw [run_bind] at hrun
    rcases hresult : (r.resolveClass parent).run m₀ with ⟨f | j, m₁⟩
    · rw [hresult] at hrun ho hiff
      rw [hrun]
      obtain ⟨i, hi, hgrows⟩ := ho.grows hi₀
      refine ⟨fun e => ?_, i, hi, nofun, hsound hgrows⟩
      rw [hiff, or_iff_left]
      · exact ⟨fun he => congrArg Except.error (Except.error.inj he),
          fun he => congrArg Except.error (Except.error.inj he)⟩
      · rintro ⟨n, hn, hraises⟩
        have hfresh := (hm.ready d title seeds d.body).onto ho (by simp)
        have hcell := hfresh.fresh n.id hn.within.mem_numbers
        exact absurd (hcell.symm.trans hraises.failed) nofun
    · rw [hresult] at hrun ho hiff
      exact hrest m₁ ho (fun e he => absurd ((hiff e).mp he) nofun) hrun

/-- A class with a parameter the default of which fails, one that is not of its type, and one without
a value; in its body the value of a variable fails. -/
def lab : Definition where
  kind := .hostClass
  name := "lab"
  params := [⟨"a", none, some (.node 0 (.call "fail" [])), false⟩,
    ⟨"b", some (.node 1 (.typeReference "Integer")), some (.node 2 (.literal (.string "ENC[b]"))),
      false⟩, ⟨"c", none, none, false⟩]
  parent := none
  body := [.node 6 (.block
    [.node 5 (.assignment (.node 3 (.variable "x")) (.node 4 (.call "fail" [])))])]
  returns := none

def labRun : Except Fault Unit × Machine Unit :=
  (resolveInstance Call.nobody 0).run ((Machine.start ()).withInstance lab none none)

/-- Whether the right-hand side of the assignment has failed. -/
def isFailure : CellState → Bool
  | .failed (.error _) => true
  | _ => false

theorem lab_isolates :
    let m : Machine Unit := .start ()
    let Q : Course Unit := ⟨fun _ _ => True, fun _ => trivial, fun _ _ => trivial⟩
    Call.nobody.Spares Q ∧ m.Numbered ∧ Apart lab.exprs ∧
      labRun.1 = .ok () ∧ isFailure (labRun.2.cell 0 4) = true ∧
      (∀ e n, Exposed n lab.body → ¬Raises (labRun.2.cell 0) n e) ∧
      ∃ i, labRun.2.instance? 0 = some i ∧ (∀ p ∈ lab.params, (i.properties.get? p.name).isSome) ∧
        ∀ name p, i.properties.get? name = some p → p.Sound := by
  intro m Q
  have hr : Call.nobody.Spares Q :=
    ⟨fun _ => .throw _, fun _ => .pure _, fun _ _ => .pure _, fun _ _ _ => trivial⟩
  have hm : m.Numbered := fun i hi => absurd hi (by simp [m, Machine.start, Machine.instance?])
  have hapart : Apart lab.exprs := by
    simp [lab, Definition.exprs, Param.exprs, ExprKind.exprs, apart_cons, numbers_cons, Expr.id,
      Expr.kind, Apart.nil]
  have hok : labRun.1 = .ok () := by decide +kernel
  have hfailed : isFailure (labRun.2.cell 0 4) = true := by decide +kernel
  obtain ⟨hfails, i, hi, hall, hsound⟩ := resolveInstance_isolates hr hm lab hapart none none
  refine ⟨hr, hm, hapart, hok, hfailed, fun e n hn hraises => ?_, i, hi, hall hok, hsound⟩
  exact absurd (hok.symm.trans ((hfails e).mpr (.inr ⟨n, hn, hraises⟩))) (by simp)

end Cascade
