import Cascade.Proofs.Eval.Interrupts
/-!
Choosing among results by the value of a test, as a `case` with one key for each result and a selector
do. Both evaluate the test and then the keys in turn, up to the first that matches the value of the
test, and then the result that stands beside that key. Whatever is interrupted on the way interrupts
both; they part only where no key matches, in what they end with.
-/
namespace Cascade

variable {η : Type} {env : Env η} {v : Value} {m m' m'' : Machine η} {es ps keys : List Expr}
  {entries before after : List (Expr × Expr)} {test key result : Expr}

/-- The options that have one key and one result each. -/
def optionsOf (entries : List (Expr × Expr)) : List CaseOption :=
  entries.map fun e => ⟨[e.1], [e.2]⟩

/-- The keys are evaluated in turn, and none of their values matches `v`. -/
inductive Skips (env : Env η) (v : Value) : Machine η → List Expr → Machine η → Prop
  | nil (m : Machine η) : Skips env v m [] m
  | cons {m m' m'' : Machine η} {key : Expr} {keys : List Expr} {o : Value} :
      (eval env key).run m = (.ok o, m') → Value.matchesAlternative v o = false →
      Skips env v m' keys m'' → Skips env v m (key :: keys) m''

/-- What a choice comes to. -/
inductive Verdict
  /-- A part is interrupted, or the result of a key that matches has been evaluated. -/
  | decided (o : Outcome)
  /-- No key matches the value of the test. -/
  | missed (v : Value)

namespace Verdict

def ofCase : Verdict → Outcome
  | decided o => o
  | missed _ => .ok .undef

def ofSelector : Verdict → Outcome
  | decided o => o
  | missed v => .error (.fault (.error (.noSelectorMatch v.display)))

end Verdict

/-- A choice among entries; the list is that of the parts that are evaluated, one after the other. -/
inductive Chooses (env : Env η) (test : Expr) (entries : List (Expr × Expr)) (m : Machine η) :
    List Expr → Verdict → Machine η → Prop
  /-- The test is interrupted. -/
  | test {i : Interrupt} {m₁ : Machine η} : (eval env test).run m = (.error i, m₁) →
      Chooses env test entries m [test] (.decided (.error i)) m₁
  /-- A key is interrupted. -/
  | key {v : Value} {i : Interrupt} {m₁ m₂ m₃ : Machine η} {before after : List (Expr × Expr)}
      {key result : Expr} : entries = before ++ (key, result) :: after →
      (eval env test).run m = (.ok v, m₁) → Skips env v m₁ (before.map (·.1)) m₂ →
      (eval env key).run m₂ = (.error i, m₃) →
      Chooses env test entries m (test :: before.map (·.1) ++ [key]) (.decided (.error i)) m₃
  /-- A key matches, and its result decides. -/
  | found {v option : Value} {o : Outcome} {m₁ m₂ m₃ m₄ : Machine η}
      {before after : List (Expr × Expr)} {key result : Expr} :
      entries = before ++ (key, result) :: after →
      (eval env test).run m = (.ok v, m₁) → Skips env v m₁ (before.map (·.1)) m₂ →
      (eval env key).run m₂ = (.ok option, m₃) → Value.matchesAlternative v option = true →
      (eval env result).run m₃ = (o, m₄) →
      Chooses env test entries m (test :: before.map (·.1) ++ [key, result]) (.decided o) m₄
  /-- No key matches. -/
  | missed {v : Value} {m₁ m₂ : Machine η} : (eval env test).run m = (.ok v, m₁) →
      Skips env v m₁ (entries.map (·.1)) m₂ →
      Chooses env test entries m (test :: entries.map (·.1)) (.missed v) m₂

/-- Keys are passed as far as to one that is interrupted or matches, if there is one. -/
theorem exists_skips (env : Env η) (v : Value) (entries : List (Expr × Expr)) (m : Machine η) :
    (∃ m', Skips env v m (entries.map (·.1)) m') ∨
      ∃ before key result after m', entries = before ++ (key, result) :: after ∧
        Skips env v m (before.map (·.1)) m' ∧ ∀ o, ((eval env key).run m').1 = .ok o →
          Value.matchesAlternative v o = true := by
  induction entries generalizing m with
  | nil => exact .inl ⟨m, .nil m⟩
  | cons e entries ih =>
    obtain ⟨key, result⟩ := e
    by_cases hkey : ∃ o, ((eval env key).run m).1 = .ok o ∧ Value.matchesAlternative v o = false
    · obtain ⟨o, ho, hno⟩ := hkey
      have hrun : (eval env key).run m = (.ok o, ((eval env key).run m).2) := Prod.ext ho rfl
      rcases ih ((eval env key).run m).2 with ⟨m', h⟩ | ⟨before, key', result', after, m', rfl, h, hstop⟩
      · exact .inl ⟨m', .cons hrun hno h⟩
      · exact .inr ⟨(key, result) :: before, key', result', after, m', rfl, .cons hrun hno h, hstop⟩
    · refine .inr ⟨[], key, result, entries, m, rfl, .nil m, fun o ho => ?_⟩
      by_contra hno
      exact hkey ⟨o, ho, by simpa using hno⟩

theorem exists_chooses (env : Env η) (test : Expr) (entries : List (Expr × Expr)) (m : Machine η) :
    ∃ ps r m', Chooses env test entries m ps r m' := by
  rcases htest : (eval env test).run m with ⟨i | v, m₁⟩
  · exact ⟨_, _, _, .test htest⟩
  · rcases exists_skips env v entries m₁ with ⟨m₂, h⟩ | ⟨before, key, result, after, m₂, he, h, hstop⟩
    · exact ⟨_, _, _, .missed htest h⟩
    · rcases hkey : (eval env key).run m₂ with ⟨i | o, m₃⟩
      · exact ⟨_, _, _, .key he htest h hkey⟩
      · exact ⟨_, _, _, .found he htest h hkey (hstop o (by rw [hkey])) rfl⟩

section Runs

/-- An option whose key has a value. -/
theorem run_evalCase_cons {o : Value} (hkey : (eval env key).run m = (.ok o, m')) :
    (evalCase env v (optionsOf ((key, result) :: entries))).run m =
      if Value.matchesAlternative v o then (eval env result).run m'
      else (evalCase env v (optionsOf entries)).run m' := by
  have hmatch : (evalMatch env v [key]).run m = (.ok (Value.matchesAlternative v o), m') := by
    rw [evalMatch, run_bind, hkey]
    dsimp only
    cases Value.matchesAlternative v o <;> rfl
  have hsingle : evalSequence env .undef [result] = eval env result := by
    simp only [evalSequence, bind_pure]
  rw [optionsOf, List.map_cons, evalCase, run_bind, hmatch]
  dsimp only
  cases Value.matchesAlternative v o with
  | true => simp only [↓reduceIte, hsingle]
  | false => rfl

theorem run_evalSelector_cons {o : Value} (hkey : (eval env key).run m = (.ok o, m')) :
    (evalSelector env v ((key, result) :: entries)).run m =
      if Value.matchesAlternative v o then (eval env result).run m'
      else (evalSelector env v entries).run m' := by
  rw [evalSelector, run_bind, hkey]
  dsimp only
  cases Value.matchesAlternative v o <;> rfl

/-- An interrupted key interrupts the choice. -/
theorem run_evalCase_interrupted {i : Interrupt} (hkey : (eval env key).run m = (.error i, m')) :
    (evalCase env v (optionsOf ((key, result) :: entries))).run m = (.error i, m') := by
  rw [optionsOf, List.map_cons, evalCase, run_bind, evalMatch, run_bind, hkey]

theorem run_evalSelector_interrupted {i : Interrupt} (hkey : (eval env key).run m = (.error i, m')) :
    (evalSelector env v ((key, result) :: entries)).run m = (.error i, m') := by
  rw [evalSelector, run_bind, hkey]

/-- Keys that are passed leave the rest to be evaluated. -/
theorem Skips.run (h : Skips env v m (before.map (·.1)) m') (after : List (Expr × Expr)) :
    (evalCase env v (optionsOf (before ++ after))).run m =
        (evalCase env v (optionsOf after)).run m' ∧
      (evalSelector env v (before ++ after)).run m = (evalSelector env v after).run m' := by
  induction before generalizing m with
  | nil =>
    cases h
    exact ⟨rfl, rfl⟩
  | cons e before ih =>
    cases h with
    | cons hkey hno h =>
      rw [List.cons_append, run_evalCase_cons hkey, run_evalSelector_cons hkey, hno]
      exact ih h

/-- A choice is how both are evaluated. -/
theorem Chooses.run {r : Verdict} (h : Chooses env test entries m ps r m') (node node' : NodeRef) :
    (evalKind env node (.caseOf test (optionsOf entries))).run m = (r.ofCase, m') ∧
      (evalKind env node' (.selector test entries)).run m = (r.ofSelector, m') := by
  simp only [evalKind]
  rw [run_bind, run_bind]
  cases h with
  | test htest =>
    rw [htest]
    exact ⟨rfl, rfl⟩
  | key he htest hskips hkey =>
    subst he
    simp only [htest, hskips.run]
    exact ⟨run_evalCase_interrupted hkey, run_evalSelector_interrupted hkey⟩
  | found he htest hskips hkey hmatch hresult =>
    subst he
    simp only [htest, hskips.run]
    rw [run_evalCase_cons hkey, run_evalSelector_cons hkey, if_pos hmatch, if_pos hmatch, hresult]
    exact ⟨rfl, rfl⟩
  | missed htest hskips =>
    have hrun := hskips.run []
    rw [List.append_nil] at hrun
    simp only [htest, hrun]
    exact ⟨rfl, rfl⟩

end Runs

section Parts

variable {o o' o'' : Order}

theorem Asks.append (h : Asks env o m ps m' o') (h' : Asks env o' m' es m'' o'') :
    Asks env o m (ps ++ es) m'' o'' := by
  induction h with
  | nil => exact h'
  | errand he _ ih => exact .errand he (ih h')
  | part hrun _ ih => exact .part hrun (ih h')

/-- Keys that are passed are asked for in the order of a selector. -/
theorem Skips.asks (h : Skips env v m (before.map (·.1)) m') (after : List (Expr × Expr)) :
    Asks env (.selector v (before ++ after)) m (before.map (·.1)) m' (.selector v after) := by
  induction before generalizing m with
  | nil =>
    cases h
    exact .nil _ _
  | cons e before ih =>
    cases h with
    | cons hkey hno h =>
      refine .part hkey ?_
      simp only [hno]
      exact ih h

theorem Chooses.ends {r : Verdict} (h : Chooses env test entries m ps r m') :
    Ends env (ExprKind.selector test entries).order m ps (r.ofSelector, m') := by
  cases h with
  | test htest => exact .interrupted (.nil _ m) htest
  | @key v i m₁ m₂ m₃ before after key result he htest hskips hkey =>
    subst he
    exact .interrupted (.part htest (hskips.asks ((key, result) :: after))) hkey
  | @found v option o m₁ m₂ m₃ m₄ before after key result he htest hskips hkey hmatch hresult =>
    subst he
    have hasks : Asks env (ExprKind.selector test (before ++ (key, result) :: after)).order m
        (test :: before.map (·.1) ++ [key]) m₃ (.inTurn .stop [result]) := by
      refine (Asks.part htest (hskips.asks ((key, result) :: after))).append (.part hkey ?_)
      simp only [hmatch, ↓reduceIte]
      exact .nil _ m₃
    have happend : test :: before.map (·.1) ++ [key, result] =
        (test :: before.map (·.1) ++ [key]) ++ [result] := by simp
    rw [happend]
    rcases o with i | w
    · exact .interrupted hasks hresult
    · exact .done _ (hasks.append (.part hresult (.nil _ _)))
  | missed htest hskips =>
    have hasks := hskips.asks []
    rw [List.append_nil] at hasks
    exact .done _ (.part htest hasks)

theorem Apart.sublist (hapart : Apart es) (hps : ps.Sublist es) : Apart ps := by
  induction hps with
  | slnil => exact .nil
  | cons e _ ih => exact ih hapart.tail
  | cons_cons e hps ih =>
    obtain ⟨hexprs, hid, htail, hdisjoint⟩ := apart_cons.mp hapart
    exact .cons hexprs hid (ih htail) (hdisjoint.mono_right (numbers_mono hps.subset))

/-- Evaluating a node of which nothing is known gives its cell an outcome. -/
theorem eval_settles {e : Expr} (h : m.cell env.copy e.id = .unresolved) :
    ∃ o, ((eval env e).run m).2.cell env.copy e.id = .ofOutcome o := by
  obtain ⟨id, kind⟩ := e
  have hid : m.cell env.copy id = .unresolved := h
  obtain ⟨ps, q, -, hrun⟩ := run_eval kind hid
  exact ⟨q.1, by simp [hrun, Expr.id]⟩

/-- Parts of which nothing was known have outcomes when they have been asked for. -/
theorem Asks.settled {Q : Course η} (hr : env.resolver.Spares Q) (h : Asks env o m ps m' o')
    (hm : env.copy < m.copies) (hapart : Apart ps)
    (hfresh : ∀ k ∈ numbers ps, m.cell env.copy k = .unresolved) :
    ∀ p ∈ ps, ∃ w, m'.cell env.copy p.id = .ofOutcome w := by
  induction h with
  | nil => exact fun p hp => absurd hp List.not_mem_nil
  | errand he _ ih =>
    have hin : Machine.Inside env.copy [] _ _ := he.inside hr hm
    exact ih (hm.trans_le hin.copies_le) hapart fun k hk =>
      (hin.cells k (by simp)).trans (hfresh k hk)
  | @part e next v o' m m' m'' ps hrun hrest ih =>
    obtain ⟨-, -, htail, hdisjoint⟩ := apart_cons.mp hapart
    have hin := eval_inside hr hapart e List.mem_cons_self m hm
    have hset := eval_settles (hfresh e.id (Within.mem_numbers (.self List.mem_cons_self)))
    rw [hrun] at hin hset
    have hm' := hm.trans_le hin.copies_le
    intro p hp
    rcases List.mem_cons.mp hp with rfl | hp
    · have hself : p.id ∈ numbers [p] := Within.mem_numbers (.self List.mem_cons_self)
      have hkeep := (hrest.inside hr hm' (List.Subset.refl ps) (eval_inside hr htail)).cells p.id
        (hdisjoint.notMem_of_mem_left hself)
      rw [hkeep]
      exact hset
    · refine ih hm' htail (fun k hk => ?_) p hp
      rw [hin.cells k (hdisjoint.notMem_of_mem_right hk)]
      exact hfresh k (numbers_mono (fun _ => List.mem_cons_of_mem e) hk)

theorem Ends.settled {Q : Course η} (hr : env.resolver.Spares Q) {α : Type}
    {q : Except Interrupt α × Machine η} (h : Ends env o m ps q) (hm : env.copy < m.copies)
    (hapart : Apart ps) (hfresh : ∀ k ∈ numbers ps, m.cell env.copy k = .unresolved) :
    ∀ p ∈ ps, ∃ w, q.2.cell env.copy p.id = .ofOutcome w := by
  cases h with
  | done q h | fails f h => exact h.settled hr hm hapart hfresh
  | @interrupted m' m'' ps e next i h hlast =>
    obtain ⟨hbefore, he, hdisjoint⟩ := apart_append.mp hapart
    rw [numbers_append] at hfresh
    have hin := h.inside hr hm (List.Subset.refl ps) (eval_inside hr hbefore)
    have hsettled := h.settled hr hm hbefore fun k hk => hfresh k (.inl hk)
    have hm' := hm.trans_le hin.copies_le
    have hself : e.id ∈ numbers [e] := Within.mem_numbers (.self List.mem_cons_self)
    intro p hp
    rcases List.mem_append.mp hp with hp | hp
    · have hnot : p.id ∉ numbers [e] :=
        hdisjoint.notMem_of_mem_left (Within.mem_numbers (.self hp))
      have hkeep := (eval_inside hr he e List.mem_cons_self m' hm').cells p.id hnot
      rw [hlast] at hkeep
      rw [hkeep]
      exact hsettled p hp
    · obtain rfl := List.mem_singleton.mp hp
      have hcell : m'.cell env.copy p.id = .unresolved :=
        (hin.cells p.id (hdisjoint.notMem_of_mem_right hself)).trans (hfresh p.id (.inr hself))
      have hset := eval_settles hcell
      rwa [hlast] at hset

/-- Of the parts of a choice, those and only those that it evaluates are known about afterwards. -/
theorem Chooses.cells {Q : Course η} (hr : env.resolver.Spares Q) {r : Verdict}
    (h : Chooses env test entries m ps r m') (hm : env.copy < m.copies)
    (hapart : Apart (ExprKind.selector test entries).exprs)
    (hfresh : ∀ k ∈ numbers (ExprKind.selector test entries).exprs,
      m.cell env.copy k = .unresolved) :
    (∀ p ∈ ps, ∃ o, m'.cell env.copy p.id = .ofOutcome o) ∧
      ∀ p ∈ (ExprKind.selector test entries).exprs, p ∉ ps → ∀ k ∈ numbers [p],
        m'.cell env.copy k = .unresolved := by
  have heval : Evaluation env (.selector test entries) m ps (r.ofSelector, m') := by
    refine .strict ?_ h.ends
    rintro ⟨_, _, _, _, _, hk, -⟩
    cases hk
  have hsub := heval.sublist
  refine ⟨h.ends.settled hr hm (hapart.sublist hsub) fun k hk =>
    hfresh k (numbers_mono hsub.subset hk), fun p hp hnot k hk => ?_⟩
  rw [heval.unresolved hr hm hapart hp hnot hk]
  exact hfresh k (numbers_mono (by simpa using hp) hk)

end Parts

/-- In the same place of a tree, and from the same state, a `case` with one key and one result for each
option and a selector evaluate the same parts in the same order, with the same effects, and end with
the same outcome, unless no key matches the value of the test: then the `case` is `undef`, and the
selector fails. If nothing was known about the parts, then those that the choice evaluates, and only
those, are known about afterwards. -/
theorem case_agrees_selector (env : Env η) (m : Machine η) (id : Nat) (test : Expr)
    (entries : List (Expr × Expr)) (hcell : m.cell env.copy id = .unresolved) :
    ∃ ps r m', Chooses env test entries (m.setCell env.copy id .resolving) ps r m' ∧
      (eval env (.node id (.caseOf test (optionsOf entries)))).run m =
        (r.ofCase, m'.setCell env.copy id (.ofOutcome r.ofCase)) ∧
      (eval env (.node id (.selector test entries))).run m =
        (r.ofSelector, m'.setCell env.copy id (.ofOutcome r.ofSelector)) ∧
      ∀ Q, env.resolver.Spares Q → env.copy < m.copies →
        Apart [.node id (.selector test entries)] →
        (∀ k ∈ numbers (ExprKind.selector test entries).exprs,
          m.cell env.copy k = .unresolved) →
        (∀ p ∈ ps, ∃ o, m'.cell env.copy p.id = .ofOutcome o) ∧
          ∀ p ∈ (ExprKind.selector test entries).exprs, p ∉ ps → ∀ k ∈ numbers [p],
            m'.cell env.copy k = .unresolved := by
  obtain ⟨ps, r, m', h⟩ := exists_chooses env test entries (m.setCell env.copy id .resolving)
  refine ⟨ps, r, m', h, ?_, ?_, fun Q hr hm hapart hfresh => ?_⟩
  · rw [eval, run_memo_unresolved hcell, (h.run _ ⟨id, ""⟩).1]
  · rw [eval, run_memo_unresolved hcell, (h.run ⟨id, ""⟩ _).2]
  · obtain ⟨hexprs, hid⟩ := apart_node.mp hapart
    refine h.cells hr hm hexprs fun k hk => ?_
    have hne : id ≠ k := by
      rintro rfl
      exact hid hk
    rw [Machine.cell_setCell, if_neg fun he => hne he.2]
    exact hfresh k hk

namespace ThreeWay

def place : Env Unit := ⟨Call.nobody, .frame, 0⟩

def literal (id : Nat) (v : Value) : Expr := .node id (.literal v)

/-- `1 => 'a', 2 => 'b', 3 => 'c'` -/
def choices : List (Expr × Expr) :=
  [(literal 2 (.integer 1), literal 3 (.string "a")), (literal 4 (.integer 2), literal 5 (.string "b")),
    (literal 6 (.integer 3), literal 7 (.string "c"))]

/-- Of three keys the second one matches, and the third is not evaluated. -/
theorem case_agrees_selector_second :
    Call.blank.cell 0 0 = .unresolved ∧ ∃ ps m',
      Chooses place (literal 1 (.integer 2)) choices (Call.blank.setCell 0 0 .resolving) ps
        (.decided (.ok (.string "b"))) m' ∧
      (eval place (.node 0 (.caseOf (literal 1 (.integer 2)) (optionsOf choices)))).run Call.blank =
        (.ok (.string "b"), m'.setCell 0 0 (.resolved (.string "b"))) ∧
      (eval place (.node 0 (.selector (literal 1 (.integer 2)) choices))).run Call.blank =
        (.ok (.string "b"), m'.setCell 0 0 (.resolved (.string "b"))) ∧
      literal 4 (.integer 2) ∈ ps ∧ literal 6 (.integer 3) ∉ ps := by
  have hcell : Call.blank.cell place.copy 0 = .unresolved := rfl
  have hr : Call.nobody.Spares ⟨fun _ _ => True, fun _ => trivial, fun _ _ => trivial⟩ :=
    ⟨fun _ => .throw _, fun _ => .pure _, fun _ _ => .pure _, fun _ _ _ => trivial⟩
  have hapart : Apart [.node 0 (.selector (literal 1 (.integer 2)) choices)] := by
    simp [choices, literal, ExprKind.exprs, apart_cons, numbers_cons, Expr.id, Expr.kind, Apart.nil]
  obtain ⟨ps, r, m', h, hcase, hselector, hcells⟩ :=
    case_agrees_selector place Call.blank 0 (literal 1 (.integer 2)) choices hcell
  obtain ⟨hknown, hunknown⟩ := hcells _ hr (by decide) hapart fun _ _ => rfl
  have hverdict : r = .decided (.ok (.string "b")) := by
    have hvalue : .ok (.string "b") = r.ofCase := congrArg Prod.fst hcase
    cases r with
    | decided o => exact congrArg Verdict.decided hvalue.symm
    | missed v => simp [Verdict.ofCase] at hvalue
  subst hverdict
  have hcell' (k : Nat) (hk : 0 ≠ k) : ((eval place (.node 0 (.selector (literal 1 (.integer 2))
      choices))).run Call.blank).2.cell 0 k = m'.cell 0 k := by
    rw [hselector]
    simp [place, hk]
  refine ⟨hcell, ps, m', h, hcase, hselector, ?_, fun hin => ?_⟩
  · by_contra hnot
    have hlost : m'.cell 0 4 = .unresolved :=
      hunknown _ (by simp [ExprKind.exprs, choices]) hnot 4
        (Within.mem_numbers (.self List.mem_cons_self))
    rw [← hcell' 4 (by decide)] at hlost
    exact CellState.ofOutcome_ne_unresolved (.ok (.integer 2)) hlost
  · obtain ⟨o, ho⟩ := hknown _ hin
    have hlost : m'.cell 0 6 = .ofOutcome o := ho
    rw [← hcell' 6 (by decide)] at hlost
    exact CellState.ofOutcome_ne_unresolved o hlost.symm

end ThreeWay

/-- No key matches. -/
example : let test := ThreeWay.literal 1 (.integer 4)
    ((eval ThreeWay.place (.node 0 (.caseOf test (optionsOf ThreeWay.choices)))).run Call.blank).1 =
        .ok .undef ∧
      ((eval ThreeWay.place (.node 0 (.selector test ThreeWay.choices))).run Call.blank).1 =
        .error (.fault (.error (.noSelectorMatch "4"))) := ⟨rfl, rfl⟩

end Cascade
