import Cascade.Eval.Cell
import Cascade.Expr.Basic
import Mathlib
/-!
The nodes of expressions, and how a failure shows in their cells. A node fails if one of its parts
does, and then with the same failure; only an assignment keeps the failure of its right-hand side to
itself. So whatever makes a tree fail can be found by going from failed nodes to failed parts.
-/
namespace Cascade

def Param.exprs (p : Param) : List Expr := p.type.toList ++ p.default.toList

/-- The expressions that a definition is made of. -/
def Definition.exprs (d : Definition) : List Expr :=
  d.params.flatMap Param.exprs ++ d.body ++ d.returns.toList

namespace ExprKind

/-- The expressions that an expression is made of. -/
def exprs : ExprKind → List Expr
  | list items => items
  | hash entries => entries.flatMap fun e => [e.1, e.2]
  | block statements => statements
  | definition d => d.exprs
  | assignment target value => [target, value]
  | access target keys => target :: keys
  | call _ args => args
  | conditional test thenBranch elseBranch _ => test :: (thenBranch ++ elseBranch)
  | caseOf test options => test :: options.flatMap fun o => o.values ++ o.body
  | selector test entries => test :: entries.flatMap fun e => [e.1, e.2]
  | concat segments => segments
  | str inner | heredoc inner | paren inner => [inner]
  | resource typeName bodies =>
    typeName :: bodies.flatMap fun b => b.title :: b.attributes.map (·.2)
  | ret value => value.toList
  | binary _ left right => [left, right]
  | unary _ operand => [operand]
  | _ => []

/-- The parts that take the whole with them when they fail. -/
def exposed : ExprKind → List Expr
  | assignment .. => []
  | kind => kind.exprs

theorem exposed_eq_exprs {kind : ExprKind} {p : Expr} (h : p ∈ kind.exposed) :
    kind.exposed = kind.exprs := by
  cases kind with
  | assignment => exact absurd h List.not_mem_nil
  | _ => rfl

end ExprKind

/-- `n` is one of `es`, or below one of them. -/
inductive Within (n : Expr) : List Expr → Prop
  | self {es : List Expr} : n ∈ es → Within n es
  | part {e : Expr} {es : List Expr} : e ∈ es → Within n e.kind.exprs → Within n es

/-- `n` is one of `es`, or below one of them without an assignment in between. -/
inductive Exposed (n : Expr) : List Expr → Prop
  | self {es : List Expr} : n ∈ es → Exposed n es
  | part {e : Expr} {es : List Expr} : e ∈ es → Exposed n e.kind.exposed → Exposed n es

variable {n e p : Expr} {es es' : List Expr}

theorem Exposed.mono (h : Exposed n es) (hsub : ∀ e ∈ es, e ∈ es') : Exposed n es' := by
  cases h with
  | self hn => exact .self (hsub n hn)
  | part he hn => exact .part (hsub _ he) hn

namespace Within

@[simp] theorem nil : ¬Within n [] := by
  rintro (h | ⟨h, -⟩) <;> exact absurd h List.not_mem_nil

theorem mono (h : Within n es) (hsub : ∀ e ∈ es, e ∈ es') : Within n es' := by
  cases h with
  | self hn => exact .self (hsub n hn)
  | part he hn => exact .part (hsub _ he) hn

@[simp] theorem append : Within n (es ++ es') ↔ Within n es ∨ Within n es' := by
  constructor
  · rintro (h | ⟨h, hn⟩)
    · exact (List.mem_append.mp h).imp .self .self
    · exact (List.mem_append.mp h).imp (.part · hn) (.part · hn)
  · rintro (h | h)
    · exact h.mono fun _ => List.mem_append_left _
    · exact h.mono fun _ => List.mem_append_right _

theorem cons : Within n (e :: es) ↔ n = e ∨ Within n e.kind.exprs ∨ Within n es := by
  constructor
  · rintro (h | ⟨h, hn⟩)
    · exact (List.mem_cons.mp h).imp id fun h => .inr (.self h)
    · rcases List.mem_cons.mp h with rfl | h
      · exact .inr (.inl hn)
      · exact .inr (.inr (.part h hn))
  · rintro (rfl | h | h)
    · exact .self List.mem_cons_self
    · exact .part List.mem_cons_self h
    · exact h.mono fun _ => List.mem_cons_of_mem _

/-- What is below a node is below all that it is below. -/
theorem of_part (h : Within n es) (hp : p ∈ n.kind.exprs) : Within p es := by
  induction h with
  | self hn => exact .part hn (.self hp)
  | part he _ ih => exact .part he ih

end Within

theorem Exposed.within (h : Exposed n es) : Within n es := by
  induction h with
  | self hn => exact .self hn
  | part he _ ih => exact .part he (ih.mono fun _ hp => ExprKind.exposed_eq_exprs hp ▸ hp)

/-- The numbers of all nodes of some expressions. -/
def numbers (es : List Expr) : Set Nat := {k | ∃ n, Within n es ∧ n.id = k}

theorem Within.mem_numbers (h : Within n es) : n.id ∈ numbers es := ⟨n, h, rfl⟩

theorem numbers_mono (h : ∀ e ∈ es, e ∈ es') : numbers es ⊆ numbers es' :=
  fun _ ⟨n, hn, hk⟩ => ⟨n, hn.mono h, hk⟩

@[simp] theorem numbers_nil : numbers [] = ∅ := by
  simp [numbers]

@[simp] theorem numbers_append : numbers (es ++ es') = numbers es ∪ numbers es' := by
  ext k
  simp [numbers, or_and_right, exists_or]

theorem numbers_cons : numbers (e :: es) = insert e.id (numbers e.kind.exprs ∪ numbers es) := by
  ext k
  simp [numbers, Within.cons, or_and_right, exists_or, eq_comm]

/-- No two nodes have the same number. -/
inductive Apart : List Expr → Prop
  | nil : Apart []
  | cons {e : Expr} {es : List Expr} : Apart e.kind.exprs → e.id ∉ numbers e.kind.exprs →
      Apart es → Disjoint (numbers [e]) (numbers es) → Apart (e :: es)

theorem apart_cons : Apart (e :: es) ↔ Apart e.kind.exprs ∧ e.id ∉ numbers e.kind.exprs ∧
    Apart es ∧ Disjoint (numbers [e]) (numbers es) := by
  constructor
  · rintro (_ | ⟨hexprs, hid, hes, hdisjoint⟩)
    exact ⟨hexprs, hid, hes, hdisjoint⟩
  · rintro ⟨hexprs, hid, hes, hdisjoint⟩
    exact .cons hexprs hid hes hdisjoint

theorem apart_append : Apart (es ++ es') ↔
    Apart es ∧ Apart es' ∧ Disjoint (numbers es) (numbers es') := by
  induction es with
  | nil => simp [Apart.nil]
  | cons e es ih =>
    have hcons : numbers ([e] ++ es) = numbers [e] ∪ numbers es := numbers_append
    rw [List.singleton_append] at hcons
    rw [List.cons_append, apart_cons, apart_cons, ih, numbers_append, hcons,
      Set.disjoint_union_right, Set.disjoint_union_left]
    tauto

theorem Apart.head (h : Apart (e :: es)) : Apart [e] :=
  (apart_append.mp (List.singleton_append ▸ h)).1

theorem Apart.tail (h : Apart (e :: es)) : Apart es :=
  (apart_append.mp (List.singleton_append ▸ h)).2.1

theorem Apart.of_within (h : Apart es) (hn : Within n es) : Apart n.kind.exprs := by
  induction h with
  | nil => exact absurd hn Within.nil
  | cons hparts _ _ _ ihparts ihrest =>
    rcases Within.cons.mp hn with rfl | hn | hn
    · exact hparts
    · exact ihparts hn
    · exact ihrest hn

theorem numbers_node {id : Nat} {kind : ExprKind} :
    numbers [.node id kind] = insert id (numbers kind.exprs) := by
  simp [numbers_cons, Expr.id, Expr.kind]

theorem apart_node {id : Nat} {kind : ExprKind} :
    Apart [.node id kind] ↔ Apart kind.exprs ∧ id ∉ numbers kind.exprs := by
  simp [apart_cons, Apart.nil, Expr.id, Expr.kind]

/-- How the failures of a node and its parts hang together. -/
structure Accounted (c : Nat → CellState) (n : Expr) : Prop where
  passes {p : Expr} {f : Fault} : p ∈ n.kind.exposed → c p.id = .failed f → c n.id = .failed f
  exposes {p : Expr} {f : Fault} {e : EvalError} : p ∈ n.kind.exprs → c p.id = .failed f →
    c n.id = .failed (.error e) → p ∈ n.kind.exposed

/-- Parts that are in order cannot account for anything. -/
theorem Accounted.of_exprs {c : Nat → CellState}
    (h : ∀ p ∈ n.kind.exprs, ∀ f, c p.id ≠ .failed f) : Accounted c n where
  passes hp hf := absurd hf (h _ (ExprKind.exposed_eq_exprs hp ▸ hp) _)
  exposes hp hf _ := absurd hf (h _ hp _)

theorem Accounted.congr {c c' : Nat → CellState} (h : Accounted c n) (hn : c' n.id = c n.id)
    (hparts : ∀ p ∈ n.kind.exprs, c' p.id = c p.id) : Accounted c' n where
  passes hp hf := by
    rw [hparts _ (ExprKind.exposed_eq_exprs hp ▸ hp)] at hf
    rw [hn]
    exact h.passes hp hf
  exposes hp hf he := by
    rw [hparts _ hp] at hf
    rw [hn] at he
    exact h.exposes hp hf he

/-- A node that has failed with an error, although all its parts are in order. -/
structure Raises (c : Nat → CellState) (n : Expr) (e : EvalError) : Prop where
  failed : c n.id = .failed (.error e)
  parts : ∀ p ∈ n.kind.exprs, ∀ f, c p.id ≠ .failed f

variable {c : Nat → CellState} {err : EvalError}

/-- What has failed leads to a node that raises the error. -/
theorem exists_raises (hapart : Apart es) (h : ∀ n, Within n es → Accounted c n) (he : e ∈ es)
    (hfailed : c e.id = .failed (.error err)) : ∃ n, Exposed n es ∧ Raises c n err := by
  induction hapart generalizing e with
  | nil => exact absurd he List.not_mem_nil
  | @cons root es _ _ _ _ ihparts ihrest =>
    rcases List.mem_cons.mp he with rfl | hrest
    · by_cases hparts : ∀ p ∈ e.kind.exprs, ∀ f, c p.id ≠ .failed f
      · exact ⟨e, .self he, hfailed, hparts⟩
      · push Not at hparts
        obtain ⟨p, hp, f, hf⟩ := hparts
        have haccounted := h e (.self he)
        have hexposed := haccounted.exposes hp hf hfailed
        have hpassed := haccounted.passes hexposed hf
        rw [hfailed] at hpassed
        obtain rfl := CellState.failed.inj hpassed
        obtain ⟨n, hn, hraises⟩ := ihparts (fun n hn => h n (.part he hn)) hp hf
        refine ⟨n, .part he ?_, hraises⟩
        rwa [ExprKind.exposed_eq_exprs hexposed]
    · obtain ⟨n, hn, hraises⟩ := ihrest (fun n hn => h n (hn.mono fun _ => List.mem_cons_of_mem _))
        hrest hfailed
      exact ⟨n, hn.mono fun _ => List.mem_cons_of_mem _, hraises⟩

/-- What raises an error and is exposed makes one of the expressions fail. -/
theorem exists_failed (h : ∀ n, Within n es → Accounted c n) (hn : Exposed n es)
    (hfailed : c n.id = .failed (.error err)) : ∃ e ∈ es, c e.id = .failed (.error err) := by
  induction hn with
  | self hn => exact ⟨n, hn, hfailed⟩
  | @part e es he hexposed ih =>
    obtain ⟨p, hp, hf⟩ := ih fun n hn => h n <| .part he <| hn.mono fun q hq =>
      ExprKind.exposed_eq_exprs hq ▸ hq
    exact ⟨e, he, (h e (.self he)).passes hp hf⟩

/-- One of several expressions fails if and only if a node that is not below an assignment raises the
error. -/
theorem exists_failed_iff (hapart : Apart es) (h : ∀ n, Within n es → Accounted c n) :
    (∃ e ∈ es, c e.id = .failed (.error err)) ↔ ∃ n, Exposed n es ∧ Raises c n err :=
  ⟨fun ⟨_, he, hfailed⟩ => exists_raises hapart h he hfailed,
    fun ⟨_, hn, hraises⟩ => exists_failed h hn hraises.failed⟩

end Cascade
