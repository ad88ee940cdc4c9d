import Mathlib.Data.List.Forall2
import Cascade.Proofs.Eval.Instance
import Cascade.Proofs.Eval.Protocol
/-!
How a call binds its arguments. The number of arguments is checked against how many parameters of each
sort there are, but they are handed out from left to right. So every argument is bound, in order, but a
parameter that needs one may stand behind others that have used up what there is.
-/
namespace Cascade

variable {η : Type}

/-- What a call has for a parameter. -/
inductive Given
  | passed (v : Value)
  | rest (vs : List Value)
  | default (e : Expr)
  | nothing

namespace Given

/-- The arguments that it takes. -/
def arguments : Given → List Value
  | passed v => [v]
  | rest vs => vs
  | default _ | nothing => []

def value (env : Env η) : Given → Act η Value
  | passed v => pure v
  | rest vs => pure (.array vs)
  | nothing => pure .undef
  | default e => Eval.settle (eval env e)

/-- What fits a parameter: a splat takes a rest, and a default is its own. -/
def Suits (p : Param) : Given → Prop
  | passed _ => p.splat = false
  | rest _ => p.splat = true
  | default e => p.splat = false ∧ p.default = some e
  | nothing => p.splat = false ∧ p.default = none

end Given

/-- The arguments handed out to the parameters. -/
def give : List Value → List Param → List Given
  | _, [] => []
  | args, p :: ps =>
    if p.splat then .rest args :: give [] ps
    else match args, p.default with
      | v :: rest, _ => .passed v :: give rest ps
      | [], some e => .default e :: give [] ps
      | [], none => .nothing :: give [] ps

/-- Binds one parameter after the other, so that each value sees those before it. -/
def bindAll (env : Env η) : List (Param × Given) → Act η Unit
  | [] => pure ()
  | (p, given) :: bindings => do
    bindVariable p.name (← given.value env)
    bindAll env bindings

theorem bindParams_eq (env : Env η) (args : List Value) (ps : List Param) :
    bindParams env args ps = bindAll env (ps.zip (give args ps)) := by
  induction ps generalizing args with
  | nil => cases args <;> rfl
  | cons p ps ih =>
    unfold bindParams give
    by_cases hsplat : p.splat = true
    · rw [if_pos hsplat, if_pos hsplat, ih]
      rfl
    · rw [if_neg hsplat, if_neg hsplat]
      cases args with
      | cons v rest =>
        simp only [ih]
        rfl
      | nil =>
        cases p.default with
        | some e =>
          simp only [ih]
          rfl
        | none =>
          simp only [ih]
          rfl

/-- A parameter that needs an argument. -/
def Param.required (p : Param) : Bool := !p.splat && p.default.isNone

section Handing

variable {args : List Value} {ps : List Param}

theorem suits_give (args : List Value) (ps : List Param) :
    List.Forall₂ Given.Suits ps (give args ps) := by
  induction ps generalizing args with
  | nil => exact .nil
  | cons p ps ih =>
    unfold give
    split
    next hsplat => exact .cons hsplat (ih [])
    next hsplat =>
      rw [Bool.not_eq_true] at hsplat
      split
      · exact .cons hsplat (ih _)
      next e he => exact .cons ⟨hsplat, he⟩ (ih [])
      next hnone => exact .cons ⟨hsplat, hnone⟩ (ih [])

/-- No argument is lost if there are not too many, or a splat takes what is left. -/
theorem arguments_give (h : args.length ≤ (ps.filter fun p => !p.splat).length ∨
    ∃ p ∈ ps, p.splat = true) : (give args ps).flatMap Given.arguments = args := by
  induction ps generalizing args with
  | nil =>
    rcases h with h | ⟨p, hp, -⟩
    · exact (List.length_eq_zero_iff.mp (Nat.le_zero.mp h)).symm
    · exact absurd hp List.not_mem_nil
  | cons p ps ih =>
    have hnone : (give [] ps).flatMap Given.arguments = [] := ih (.inl (Nat.zero_le _))
    unfold give
    split
    · rw [List.flatMap_cons, hnone, List.append_nil]
      rfl
    next hsplat =>
      split
      · rw [List.flatMap_cons, ih]
        · rfl
        · simpa [hsplat] using h
      · rw [List.flatMap_cons, hnone]
        rfl
      · rw [List.flatMap_cons, hnone]
        rfl

theorem exists_split_cons {α : Type} {P : List α → α → Prop} {a : α} {as : List α} :
    (∃ before b after, a :: as = before ++ b :: after ∧ P before b) ↔
      P [] a ∨ ∃ before b after, as = before ++ b :: after ∧ P (a :: before) b := by
  constructor
  · rintro ⟨_ | ⟨c, before⟩, b, after, hsplit, hP⟩
    · obtain ⟨rfl, rfl⟩ := List.cons.inj hsplit
      exact .inl hP
    · obtain ⟨rfl, rfl⟩ := List.cons.inj hsplit
      exact .inr ⟨before, b, after, rfl, hP⟩
  · rintro (hP | ⟨before, b, after, rfl, hP⟩)
    · exact ⟨[], a, as, rfl, hP⟩
    · exact ⟨a :: before, b, after, rfl, hP⟩

/-- A parameter comes to nothing if it needs an argument but those before it have used up what there is. -/
theorem nothing_mem_give_iff : .nothing ∈ give args ps ↔ ∃ before p after, ps = before ++ p :: after ∧
    p.required = true ∧ (args.length ≤ before.length ∨ ∃ q ∈ before, q.splat = true) := by
  induction ps generalizing args with
  | nil => simp [give]
  | cons p ps ih =>
    rw [exists_split_cons]
    unfold give
    split
    next hsplat => simp [ih, hsplat, Param.required]
    next hsplat =>
      split
      · simp [ih, hsplat]
      next e he => simp [ih, he, Param.required]
      next hnone => simp [hsplat, hnone, Param.required]

end Handing

namespace Definition

variable {d : Definition} {n : Nat}

/-- As many arguments as the parameters call for. -/
def Accepts (d : Definition) (n : Nat) : Prop :=
  d.requiredCount ≤ n ∧ (n ≤ d.positionalCount ∨ ∃ p ∈ d.params, p.splat = true)

/-- The parameters that need arguments stand before all others. -/
def Ordered (d : Definition) : Prop :=
  d.params.Pairwise fun q p => p.required = true → q.required = true

theorem checkArity_of_accepts (h : d.Accepts n) : d.checkArity n = .ok () := by
  obtain ⟨hleast, hmost⟩ := h
  rw [checkArity, if_neg (Nat.not_lt.mpr hleast), if_neg]
  rcases hmost with hmost | ⟨p, hp, hsplat⟩
  · simp [Nat.not_lt.mpr hmost]
  · simp [List.any_eq_true.mpr ⟨p, hp, hsplat⟩]

theorem checkArity_of_not_accepts (h : ¬d.Accepts n) :
    ∃ wanted, d.checkArity n = .error (.arity d.name wanted n) := by
  unfold checkArity
  split
  · exact ⟨_, rfl⟩
  next hleast =>
    refine ⟨d.positionalCount, if_pos ?_⟩
    have hmost : ¬(n ≤ d.positionalCount ∨ ∃ p ∈ d.params, p.splat = true) :=
      fun hmost => h ⟨Nat.not_lt.mp hleast, hmost⟩
    rw [not_or] at hmost
    simpa using hmost.symm

theorem requiredCount_eq : d.requiredCount = d.params.countP Param.required :=
  List.countP_eq_length_filter.symm

theorem accepts_requiredCount (d : Definition) : d.Accepts d.requiredCount := by
  refine ⟨le_rfl, .inl ?_⟩
  simp only [requiredCount, positionalCount, ← List.countP_eq_length_filter]
  exact List.countP_mono_left fun p _ hp => (Bool.and_eq_true_iff.mp hp).1

/-- If as few arguments as possible leave nobody without one, whatever needs one is among as many of the
first parameters. -/
theorem not_required_of_mem_drop {args : List Value} (hargs : args.length = d.requiredCount)
    (h : .nothing ∉ give args d.params) {p : Param} (hp : p ∈ d.params.drop d.requiredCount) :
    ¬p.required = true := by
  intro hrequired
  obtain ⟨before, after, hsplit⟩ := List.append_of_mem hp
  have hparams : d.params = (d.params.take d.requiredCount ++ before) ++ p :: after := by
    rw [List.append_assoc, ← hsplit, List.take_append_drop]
  have hlength : d.requiredCount ≤ d.params.length := by
    rw [requiredCount_eq]
    exact List.countP_le_length
  refine h (nothing_mem_give_iff.mpr ⟨_, p, after, hparams, hrequired, .inl ?_⟩)
  simp [hargs, hlength]

/-- There are only so many that need one, so the first parameters are those. -/
theorem required_of_mem_take (h : ∀ p ∈ d.params.drop d.requiredCount, ¬p.required = true) {q : Param}
    (hq : q ∈ d.params.take d.requiredCount) : q.required = true := by
  have hcount : d.requiredCount = (d.params.take d.requiredCount).countP Param.required := by
    conv_lhs => rw [requiredCount_eq, ← List.take_append_drop d.requiredCount d.params]
    rw [List.countP_append, List.countP_eq_zero.mpr h, Nat.add_zero]
  refine List.countP_eq_length.mp (le_antisymm List.countP_le_length ?_) q hq
  rw [← hcount]
  exact List.length_take_le _ _

/-- Every call that is accepted gives every parameter that needs an argument one if and only if these
parameters stand first. -/
theorem ordered_iff : d.Ordered ↔
    ∀ args : List Value, d.Accepts args.length → .nothing ∉ give args d.params := by
  constructor
  · intro hordered args haccepts hnothing
    obtain ⟨before, p, after, hsplit, hp, hused⟩ := nothing_mem_give_iff.mp hnothing
    unfold Ordered at hordered
    rw [hsplit, List.pairwise_append] at hordered
    have hbefore : ∀ q ∈ before, q.required = true :=
      fun q hq => hordered.2.2 q hq p List.mem_cons_self hp
    have hcount : before.length < d.requiredCount := by
      rw [requiredCount_eq, hsplit, List.countP_append, List.countP_cons,
        List.countP_eq_length.mpr hbefore, if_pos hp]
      omega
    rcases hused with hused | ⟨q, hq, hsplat⟩
    · exact absurd haccepts.1 (by omega)
    · have hq := hbefore q hq
      simp [Param.required, hsplat] at hq
  · intro hall
    have hfewest : (List.replicate d.requiredCount Value.undef).length = d.requiredCount :=
      List.length_replicate
    have hlater : ∀ p ∈ d.params.drop d.requiredCount, ¬p.required = true := fun p hp =>
      not_required_of_mem_drop hfewest (hall _ (hfewest.symm ▸ d.accepts_requiredCount)) hp
    unfold Ordered
    rw [← List.take_append_drop d.requiredCount d.params, List.pairwise_append]
    exact ⟨List.pairwise_of_forall_mem_list fun q hq _ _ _ => required_of_mem_take hlater hq,
      List.pairwise_of_forall_mem_list fun _ _ p hp hrequired => absurd hrequired (hlater p hp),
      fun _ _ p hp hrequired => absurd hrequired (hlater p hp)⟩

/-- A call with a number of arguments that is not accepted fails before anything is evaluated. Any other
binds the parameters one after the other: what they take is the arguments, each of them once and in
order, a splat takes a rest, and what is evaluated for a parameter is its default. A parameter that
needs an argument goes without if and only if one before it is a splat or there are no more arguments than
parameters before it, and that never happens if and only if such parameters stand before all others. -/
theorem binds_arguments (r : Resolver η) (d : Definition) (args : List Value) :
    (¬d.Accepts args.length → ∃ wanted, ∀ m, (invokeFunction r d args).run m =
      (.error (.error (.arity d.name wanted args.length)), m)) ∧
    (d.Accepts args.length →
      (give args d.params).flatMap Given.arguments = args ∧
      List.Forall₂ Given.Suits d.params (give args d.params) ∧
      invokeFunction r d args = withCall fun copy => do
        bindAll ⟨r, .frame, copy⟩ (d.params.zip (give args d.params))
        let v ← evalStatements ⟨r, .frame, copy⟩ d.body
        checkReturn ⟨r, .frame, copy⟩ d v
        return v) ∧
    (.nothing ∈ give args d.params ↔ ∃ before p after, d.params = before ++ p :: after ∧
      p.required = true ∧ (args.length ≤ before.length ∨ ∃ q ∈ before, q.splat = true)) ∧
    (d.Ordered ↔ ∀ args : List Value, d.Accepts args.length → .nothing ∉ give args d.params) := by
  refine ⟨fun h => ?_, fun h => ⟨arguments_give ?_, suits_give args d.params, ?_⟩,
    nothing_mem_give_iff, ordered_iff⟩
  · obtain ⟨wanted, he⟩ := checkArity_of_not_accepts h
    exact ⟨wanted, run_invokeFunction_error he⟩
  · exact h.2
  · rw [invokeFunction, checkArity_of_accepts h]
    simp only [bindParams_eq]

/-- The function with the parameters `$a` and `$b = $a` that gives the list of both. -/
def trailing : Definition where
  kind := .function
  name := "trailing"
  params := [⟨"a", none, none, false⟩, ⟨"b", none, some (.node 0 (.variable "a")), false⟩]
  parent := none
  body := [.node 1 (.list [.node 2 (.variable "a"), .node 3 (.variable "b")])]
  returns := none

/-- No accepted call of it leaves `$a` without an argument, and `$b` sees it. -/
theorem trailing_bound :
    (∀ args : List Value, trailing.Accepts args.length → .nothing ∉ give args trailing.params) ∧
    ((invokeFunction Call.nobody trailing [.string "x"]).run (.start ())).1 =
      .ok (.array [.string "x", .string "x"]) := by
  have hordered : trailing.Ordered := by
    simp [Ordered, trailing, Param.required]
  have haccepts : trailing.Accepts 1 := ⟨by decide, .inl (by decide)⟩
  obtain ⟨-, hcall, -, hall⟩ := binds_arguments Call.nobody trailing [.string "x"]
  refine ⟨hall.mp hordered, ?_⟩
  rw [(hcall haccepts).2.2]
  rfl

/-- The function with the parameters `$a = 1` and `$b` that gives the list of both. -/
def leading : Definition where
  kind := .function
  name := "leading"
  params := [⟨"a", none, some (.node 0 (.literal (.integer 1))), false⟩, ⟨"b", none, none, false⟩]
  parent := none
  body := [.node 1 (.list [.node 2 (.variable "a"), .node 3 (.variable "b")])]
  returns := none

/-- One argument is as many as it needs, but it is bound to `$a`, and `$b` comes to nothing. -/
theorem leading_unbound : leading.Accepts 1 ∧
    give [.string "x"] leading.params = [.passed (.string "x"), .nothing] ∧
    ((invokeFunction Call.nobody leading [.string "x"]).run (.start ())).1 =
      .ok (.array [.string "x", .undef]) := by
  refine ⟨⟨by decide, .inl (by decide)⟩, rfl, by rfl⟩

end Definition

end Cascade
