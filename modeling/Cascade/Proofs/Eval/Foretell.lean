import Cascade.Proofs.Eval.Instance
import Mathlib.Order.Filter.AtTopBot.Basic
/-!
The other way round: a machine with a host tells how evaluations end in one that has none. What ends
on the left ends the same way on the right from some depth on, however deep the requests had to be
nested that the host could answer from what it keeps. So nothing is said about how deep that is.
-/
namespace Cascade

open Filter

variable {η : Type}

/-- What `r` answers is what `s` answers from some depth on. -/
structure Resolver.Foretells (G : Guard η) (r : Resolver η) (s : Nat → Resolver Unit) : Prop where
  resolveClass {m : Machine η} (name : String) : ((r.resolveClass name).run m).1 ≠ .error .exhausted →
    ∀ᶠ d in atTop, ∀ p, G.Ready m p →
      (((s d).resolveClass name).run p).1.map (((s d).resolveClass name).run p).2.view? =
        ((r.resolveClass name).run m).1.map ((r.resolveClass name).run m).2.view? ∧
      G.Beyond m ((r.resolveClass name).run m).2 p (((s d).resolveClass name).run p).2
  resolveFunction {m : Machine η} (name : String) :
    ((r.resolveFunction name).run m).1 ≠ .error .exhausted →
    ∀ᶠ d in atTop, ∀ p, G.Ready m p →
      (((s d).resolveFunction name).run p).1 = ((r.resolveFunction name).run m).1 ∧
      G.Beyond m ((r.resolveFunction name).run m).2 p (((s d).resolveFunction name).run p).2
  invoke {m : Machine η} (f : Definition) (args : List Value) :
    ((r.invoke f args).run m).1 ≠ .error .exhausted →
    ∀ᶠ d in atTop, ∀ p, G.Ready m p →
      (((s d).invoke f args).run p).1 = ((r.invoke f args).run m).1 ∧
      G.Beyond m ((r.invoke f args).run m).2 p (((s d).invoke f args).run p).2
  global? {m : Machine η} (d : Nat) (name : String) : G.Holds m →
    r.global? m.host name = (s d).global? () name
  lookupGlobal {m : Machine η} (d : Nat) (name : String) : G.Holds m →
    r.lookupGlobal m.host name = (s d).lookupGlobal () name
  registerSource {m : Machine η} (kind : SourceKind) (name : String) (level : Nat) : G.Holds m →
    G.Holds { m with host := r.registerSource kind name level m.host } ∧
    G.Passed m { m with host := r.registerSource kind name level m.host }

variable {G : Guard η} {k : Scope.Kind} {a : Spot}

/-- From machines that agree, `y` ends as `x` does, from some depth on. -/
def ForetellsAt {ε α : Type} (G : Guard η) (k : Scope.Kind) (a : Spot) (m : Machine η)
    (x : ExceptT ε (StateM (Machine η)) α) (y : Nat → Spot → ExceptT ε (StateM (Machine Unit)) α) :
    Prop :=
  ∀ᶠ d in atTop, ∀ (b : Spot) (p : Machine Unit), b.scope.kind = k → Link.Agree ⟨G, a, b⟩ m p →
    ((y d b).run p).1 = (x.run m).1 ∧ Link.Along ⟨G, a, b⟩ m (x.run m).2 p ((y d b).run p).2

/-- If `x` comes to an end it tells how `y` ends. -/
def Foretells {ε α : Type} [Bounded ε] (G : Guard η) (k : Scope.Kind) (a : Spot)
    (x : ExceptT ε (StateM (Machine η)) α) (y : Nat → Spot → ExceptT ε (StateM (Machine Unit)) α) :
    Prop :=
  ∀ m, (x.run m).1 ≠ .error Bounded.exhausted → ForetellsAt G k a m x y

namespace Foretells

variable {ε ε' α β : Type} [Bounded ε] [Bounded ε'] {x : ExceptT ε (StateM (Machine η)) α}
  {y : Nat → Spot → ExceptT ε (StateM (Machine Unit)) α}

theorem pure (v : α) : Foretells G k a (Pure.pure v : ExceptT ε (StateM (Machine η)) α)
    fun _ _ => Pure.pure v :=
  fun _ _ => .of_forall fun _ _ _ _ h => ⟨rfl, h.along⟩

theorem throw (e : ε) : Foretells G k a (throw e : ExceptT ε (StateM (Machine η)) α)
    fun _ _ => throw e :=
  fun _ _ => .of_forall fun _ _ _ _ h => ⟨rfl, h.along⟩

theorem bind {f : α → ExceptT ε (StateM (Machine η)) β}
    {g : α → Nat → Spot → ExceptT ε (StateM (Machine Unit)) β} (hx : Foretells G k a x y)
    (hf : ∀ v, Foretells G k a (f v) (g v)) :
    Foretells G k a (x >>= f) fun d b => y d b >>= fun v => g v d b := by
  intro m hne
  unfold ForetellsAt
  rw [run_bind] at hne ⊢
  rcases hrun : x.run m with ⟨e | v, m'⟩
  · rw [hrun] at hne
    have hfirst : (x.run m).1 ≠ .error Bounded.exhausted := by
      rw [hrun]
      simpa using hne
    filter_upwards [hx m hfirst] with d hd b p hb h
    obtain ⟨hresult, ha⟩ := hd b p hb h
    rw [hrun] at hresult ha
    rw [run_bind]
    rcases hy : (y d b).run p with ⟨o, p'⟩
    rw [hy] at hresult ha
    obtain rfl : o = .error e := hresult
    exact ⟨rfl, ha⟩
  · rw [hrun] at hne
    filter_upwards [hx m (by simp [hrun]), hf v m' hne] with d hd hd' b p hb h
    obtain ⟨hresult, ha⟩ := hd b p hb h
    rw [hrun] at hresult ha
    rw [run_bind]
    rcases hy : (y d b).run p with ⟨o, p'⟩
    rw [hy] at hresult ha
    obtain rfl : o = .ok v := hresult
    obtain ⟨hresult', ha'⟩ := hd' b p' hb ha.agree
    exact ⟨hresult', ha.trans ha'⟩

theorem ending {t : Except ε α → Except ε' β}
    (ht : t (.error Bounded.exhausted) = .error Bounded.exhausted) (hx : Foretells G k a x y) :
    Foretells G k a (Cascade.ending t x) fun d b => Cascade.ending t (y d b) := by
  intro m hne
  have hfirst : (x.run m).1 ≠ .error Bounded.exhausted := fun he => hne ((congrArg t he).trans ht)
  filter_upwards [hx m hfirst] with d hd b p hb h
  obtain ⟨hresult, ha⟩ := hd b p hb h
  exact ⟨congrArg t hresult, ha⟩

theorem memo {x : Eval η Value} {y : Nat → Spot → Eval Unit Value} (node : Nat)
    (hx : Foretells G k a x y) :
    Foretells G k a (Eval.memo a.copy node x) fun d b => Eval.memo b.copy node (y d b) := by
  intro m hne
  rw [run_memo] at hne
  rcases hc : (m.cell a.copy node).begin with ⟨_ | o, s⟩
  · simp only [hc] at hne
    filter_upwards [hx _ hne] with d hd b p hb h
    have hs := h.setCell node s
    obtain ⟨hresult, ha⟩ := hd b _ hb hs.agree
    rw [run_memo, run_memo, ← h.cells node, hc]
    simp only [hresult]
    exact ⟨trivial, hs.trans (ha.trans (ha.agree.setCell node _))⟩
  · refine .of_forall fun d b p hb h => ?_
    rw [run_memo, run_memo, ← h.cells node, hc]
    exact ⟨rfl, h.along⟩

/-- Both change their machines, each as the other does. -/
theorem modify {f : Machine η → Machine η} {g : Spot → Machine Unit → Machine Unit}
    (h : ∀ ⦃m b p⦄, b.scope.kind = k → Link.Agree ⟨G, a, b⟩ m p →
      Link.Along ⟨G, a, b⟩ m (f m) p (g b p)) :
    Foretells G k a (modify f : ExceptT ε (StateM (Machine η)) PUnit) fun _ b => modify (g b) :=
  fun _ _ => .of_forall fun _ _ _ hb ha => ⟨rfl, h hb ha⟩

/-- A request that is answered alike. -/
theorem of_beyond {x : Act η α} {y : Nat → Act Unit α}
    (h : ∀ m, (x.run m).1 ≠ .error .exhausted → ∀ᶠ d in atTop, ∀ p, G.Ready m p →
      ((y d).run p).1 = (x.run m).1 ∧ G.Beyond m (x.run m).2 p ((y d).run p).2) :
    Foretells G k a x fun d _ => y d := by
  intro m hne
  filter_upwards [h m hne] with d hd b p _ ha
  exact ⟨(hd p ha.ready).1, ha.beyond (hd p ha.ready).2⟩

theorem shown {r : Resolver η} {s : Nat → Resolver Unit} (hr : r.Foretells G s) (name : String) :
    Foretells G k a ((a.env r).shown name) fun d b => (b.env (s d)).shown name := by
  refine .of_beyond (y := fun d => (a.env (s d)).shown name) fun m hne => ?_
  rw [run_shown] at hne
  filter_upwards [hr.resolveClass name (Fault.map_ne_exhausted.mp hne)] with d hd p hp
  rw [run_shown, run_shown]
  exact hd p hp

end Foretells

/-- An evaluation that comes to an end tells how the same one ends elsewhere. -/
theorem Uniform.foretells {ε α : Type} [Bounded ε] {x : Program ε α} (h : Uniform k x)
    {r : Resolver η} {s : Nat → Resolver Unit} (hr : r.Foretells G s) (ha : a.scope.kind = k) :
    Foretells G k a (x η (a.env r)) fun d b => x Unit (b.env (s d)) := by
  induction h with
  | pure v => exact .pure v
  | throw e _ => exact .throw e
  | bind _ _ hx hf => exact hx.bind hf
  | ending _ ht hx => exact hx.ending ((ht _).mpr rfl)
  | memo node _ hx => exact hx.memo node
  | look _ hf =>
    intro m hne
    filter_upwards [hf ((a.env r).sight m) m hne] with d hd b p hb hagree
    rw [run_bind, run_bind, run_get, run_get]
    have hsight : (a.env r).sight m = (b.env (s d)).sight p :=
      hagree.sight (hr.global? d · hagree.ready.holds) (hr.lookupGlobal d · hagree.ready.holds)
    simp only [← hsight]
    exact hd b p hb hagree
  | shown name => exact .shown hr name
  | resolveFunction name => exact .of_beyond fun m hne => hr.resolveFunction name hne
  | call name _ hx =>
    simp only [callFunction_eq]
    refine .bind (.ending rfl (.of_beyond fun m hne => hr.resolveFunction name hne)) fun
      | none => .throw _
      | some f => .bind hx fun args => .ending rfl (.ending rfl ?_)
    exact .of_beyond fun m hne => hr.invoke f args hne
  | registerSource name level =>
    intro m _
    refine .of_forall fun d b p _ hagree => ⟨rfl, hagree.beyond ?_⟩
    obtain ⟨hholds, hpassed⟩ := hr.registerSource .property name level hagree.ready.holds
    exact ⟨hholds, hpassed, .of_host ∅ m _, .of_host ∅ p _⟩
  | setFrame name v hk =>
    have hl := Scope.eq_frame (ha.trans hk)
    refine .modify fun m b p hb hagree => ?_
    have hr := Scope.eq_frame (hb.trans hk)
    have hframe : m.frame = p.frame := hagree.frame_eq hl hr
    rw [hframe]
    exact hagree.setFrame hl hr _
  | update change hk hc =>
    have hl := Scope.eq_object (ha.trans hk)
    exact .modify fun m b p hb hagree =>
      hagree.updateInstance hl (Scope.eq_object (hb.trans hk)) hc
  | congr _ heq hx =>
    intro m hne
    rw [heq η (a.env r) ha] at hne
    filter_upwards [hx m hne] with d hd b p hb hagree
    rw [heq η (a.env r) ha, heq Unit (b.env (s d)) hb]
    exact hd b p hb hagree

namespace Resolver.Foretells

variable {r : Resolver η} {s : Nat → Resolver Unit} {m : Machine η} {host : η}

/-- A call that comes to an end tells how the same call ends elsewhere. -/
theorem invokeFunction (hr : r.Foretells G s) (f : Definition) (args : List Value)
    (hne : ((Cascade.invokeFunction r f args).run m).1 ≠ .error .exhausted) :
    ∀ᶠ d in atTop, ∀ p, G.Ready m p →
      ((Cascade.invokeFunction (s d) f args).run p).1 =
        ((Cascade.invokeFunction r f args).run m).1 ∧
      G.Beyond m ((Cascade.invokeFunction r f args).run m).2 p
        ((Cascade.invokeFunction (s d) f args).run p).2 := by
  cases hc : f.checkArity args.length with
  | error e =>
    refine .of_forall fun d p h => ?_
    rw [run_invokeFunction_error hc, run_invokeFunction_error hc]
    exact ⟨rfl, h.holds.beyond p⟩
  | ok _ =>
    rw [run_invokeFunction hc, run_withCall] at hne
    filter_upwards [(uniform_callSteps f args).foretells (a := ⟨.frame, m.copies⟩) hr rfl _ hne]
      with d hd p h
    obtain ⟨hresult, ha⟩ := hd ⟨.frame, p.copies⟩ _ rfl h.agree_calls
    rw [run_invokeFunction hc, run_invokeFunction hc, run_withCall, run_withCall]
    exact ⟨hresult, ha.called⟩

/-- An instance that is resolved to the end tells how its like is resolved elsewhere. -/
theorem resolveInstance (hr : r.Foretells G s) (f : Definition) (title : Option String)
    (seeds : Option (Table String Seed))
    (hholds : G.Holds { m.withInstance f title seeds with host := host })
    (hopen : G.Open host m.instances.length)
    (hne : ((Cascade.resolveInstance r m.instances.length).run
      { m.withInstance f title seeds with host := host }).1 ≠ .error .exhausted) :
    let m' := (Cascade.resolveInstance r m.instances.length).run
      { m.withInstance f title seeds with host := host }
    ∀ᶠ d in atTop, ∀ p, G.Ready m p →
      let p' := (Cascade.resolveInstance (s d) p.instances.length).run
        (p.withInstance f title seeds)
      p'.1 = m'.1 ∧
        G.Resolved m { m.withInstance f title seeds with host := host } m'.2 p p'.2 := by
  intro m'
  have hleft : m' = _ := run_resolveInstance_new r f title seeds m host
  change m'.1 ≠ _ at hne
  rw [hleft] at hne ⊢
  filter_upwards [(uniform_instanceSteps (Instance.create f title seeds 0)).foretells
    (a := ⟨.object m.instances.length, m.copies⟩) hr rfl _ hne] with d hd p h
  have hright := run_resolveInstance_new (s d) f title seeds p ()
  change (Cascade.resolveInstance (s d) p.instances.length).run (p.withInstance f title seeds) = _
    at hright
  rw [hright]
  obtain ⟨hresult, ha⟩ := hd ⟨.object p.instances.length, p.copies⟩ _ rfl
    (h.agree_instances hholds hopen)
  exact ⟨hresult, ha.resolved⟩

end Resolver.Foretells

end Cascade
