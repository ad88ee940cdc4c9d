import Cascade.Proofs.Eval.Instance
/-!
A resolver extends another if it gives every answer that the other one gives. The other may give up
more often, because it lacks depth or because there is a request that it does not allow. What can be
evaluated with it can then be evaluated with the first, in just the same way.
-/
namespace Cascade

variable {η : Type}

/-- Unless `x` gives up, `y` runs just as `x` does. -/
def Extends {ε α : Type} [Bounded ε] (y x : ExceptT ε (StateM (Machine η)) α) : Prop :=
  ∀ m, (x.run m).1 ≠ .error Bounded.exhausted → y.run m = x.run m

namespace Extends

variable {ε ε' α β : Type} [Bounded ε] [Bounded ε'] {x y : ExceptT ε (StateM (Machine η)) α}

theorem refl (x : ExceptT ε (StateM (Machine η)) α) : Extends x x := fun _ _ => rfl

theorem bind {f g : α → ExceptT ε (StateM (Machine η)) β} (h : Extends y x)
    (hf : ∀ a, Extends (g a) (f a)) : Extends (y >>= g) (x >>= f) := by
  intro m hne
  rw [run_bind] at hne
  rw [run_bind, run_bind]
  rcases hx : x.run m with ⟨e | a, m'⟩
  · rw [hx] at hne
    have hfirst : (x.run m).1 ≠ .error Bounded.exhausted := by
      rw [hx]
      simpa using hne
    rw [h m hfirst, hx]
  · rw [hx] at hne
    rw [h m (by simp [hx]), hx]
    exact hf a m' hne

theorem ending {g : Except ε α → Except ε' β}
    (hg : g (.error Bounded.exhausted) = .error Bounded.exhausted) (h : Extends y x) :
    Extends (Cascade.ending g y) (Cascade.ending g x) := by
  intro m hne
  have hx : (x.run m).1 ≠ .error Bounded.exhausted := fun he => hne ((congrArg g he).trans hg)
  rw [run_ending, run_ending, h m hx]

theorem outcome {f g : Except ε α → ExceptT ε (StateM (Machine η)) β} (h : Extends y x)
    (hf : ∀ o, Extends (g o) (f o))
    (hex : ∀ m, ((f (.error Bounded.exhausted)).run m).1 = .error Bounded.exhausted) :
    Extends (Cascade.outcome y >>= g) (Cascade.outcome x >>= f) := by
  intro m hne
  rw [run_outcome_bind] at hne
  have hx : (x.run m).1 ≠ .error Bounded.exhausted := by
    intro he
    rw [he] at hne
    exact hne (hex _)
  rw [run_outcome_bind, run_outcome_bind, h m hx]
  exact hf _ _ hne

theorem memo {x y : Eval η Value} (copy node : Nat) (h : Extends y x) :
    Extends (Eval.memo copy node y) (Eval.memo copy node x) := by
  intro m hne
  rw [run_memo] at hne
  rw [run_memo, run_memo]
  rcases hc : (m.cell copy node).begin with ⟨_ | o, s⟩
  · simp only [hc] at hne ⊢
    rw [h _ hne]
  · rfl

theorem mapError {x y : Act η α} (change : EvalError → EvalError) (h : Extends y x) :
    Extends (Act.mapError change y) (Act.mapError change x) := by
  intro m hne
  rw [run_mapError] at hne
  have hx : (x.run m).1 ≠ .error Fault.exhausted := by
    intro he
    rw [he] at hne
    exact hne rfl
  rw [run_mapError, run_mapError, h m hx]

end Extends

namespace Resolver

variable {r s : Resolver η}

/-- Whatever `r` answers, `s` answers too. -/
structure Extends (s r : Resolver η) : Prop where
  resolveClass (name : String) : Cascade.Extends (s.resolveClass name) (r.resolveClass name)
  resolveFunction (name : String) :
    Cascade.Extends (s.resolveFunction name) (r.resolveFunction name)
  invoke (d : Definition) (args : List Value) : Cascade.Extends (s.invoke d args) (r.invoke d args)
  global? : s.global? = r.global?
  lookupGlobal : s.lookupGlobal = r.lookupGlobal
  registerSource : s.registerSource = r.registerSource

theorem Extends.shown (h : s.Extends r) (scope : Scope) (copy : Nat) (name : String) :
    Cascade.Extends (Env.shown ⟨s, scope, copy⟩ name) (Env.shown ⟨r, scope, copy⟩ name) :=
  .bind (h.resolveClass name) fun _ => .refl _

end Resolver

/-- An evaluation that comes to an end does so with every resolver that extends its own. -/
theorem Uniform.extends {k : Scope.Kind} {ε α : Type} [Bounded ε] {x : Program ε α}
    (h : Uniform k x) {r s : Resolver η} (hs : s.Extends r) {scope : Scope} (copy : Nat)
    (hk : scope.kind = k) : Extends (x η ⟨s, scope, copy⟩) (x η ⟨r, scope, copy⟩) := by
  induction h with
  | pure a => exact .refl _
  | throw e _ => exact .refl _
  | bind _ _ hx hf => exact hx.bind hf
  | ending _ hg hx => exact hx.ending ((hg _).mpr rfl)
  | memo node _ hx => exact hx.memo copy node
  | look _ hf =>
    intro m hne
    have hsight : Env.sight ⟨s, scope, copy⟩ m = Env.sight ⟨r, scope, copy⟩ m := by
      simp only [Env.sight, hs.global?, hs.lookupGlobal]
    rw [run_bind, run_get] at hne ⊢
    rw [run_bind, run_get]
    simp only [hsight] at hne ⊢
    exact hf _ m hne
  | shown name => exact hs.shown scope copy name
  | resolveFunction name => exact hs.resolveFunction name
  | call name _ hx =>
    simp only [callFunction_eq]
    refine .bind (.ending rfl (hs.resolveFunction name)) fun found => ?_
    cases found with
    | none => exact .refl _
    | some d => exact .bind hx fun args => .ending rfl (.ending rfl (hs.invoke d args))
  | registerSource name level =>
    simp only [hs.registerSource]
    exact .refl _
  | setFrame name v _ => exact .refl _
  | update change _ _ => exact .refl _
  | congr _ heq hx =>
    rw [heq η ⟨s, scope, copy⟩ hk, heq η ⟨r, scope, copy⟩ hk]
    exact hx

namespace Resolver.Extends

variable {r s : Resolver η}

theorem resolveInstance (h : s.Extends r) (number : Nat) :
    Cascade.Extends (Cascade.resolveInstance s number) (Cascade.resolveInstance r number) := by
  intro m hne
  cases hi : m.instance? number with
  | none =>
    rw [Cascade.resolveInstance, Cascade.resolveInstance, run_bind, run_bind, run_get]
    simp only [hi]
  | some i =>
    rw [run_resolveInstance hi] at hne ⊢
    rw [run_resolveInstance hi]
    exact (uniform_instanceSteps i).extends h i.copy rfl m hne

theorem invokeFunction (h : s.Extends r) (d : Definition) (args : List Value) :
    Cascade.Extends (Cascade.invokeFunction s d args) (Cascade.invokeFunction r d args) := by
  intro m hne
  cases hc : d.checkArity args.length with
  | error e => rw [run_invokeFunction_error hc, run_invokeFunction_error hc]
  | ok _ =>
    rw [run_invokeFunction hc, run_withCall] at hne ⊢
    rw [run_invokeFunction hc, run_withCall]
    rw [(uniform_callSteps d args).extends h m.copies rfl _ hne]

end Resolver.Extends

end Cascade
