import Cascade.Proofs.Eval.Extend
import Cascade.Proofs.Eval.Foretell
import Cascade.Proofs.Node.Caching
/-!
A class that is asked for while it is being loaded is handed out as far as it has come, which depends
on who asked first. The watcher is a resolver that gives up at such a request, so requests that come
to an end with it are those in which nothing of the kind happens. They end just as they do without the
watcher, and as they do without any cache.
-/
namespace Cascade

open Filter

namespace Node

/-- Gives up if the class is being loaded. -/
def watchClass (r : Resolver Host) (name : String) : Act Host Nat := do
  match (← get).host.node.classes.slots.get? (Name.normalize name) with
  | some (.loading _) => throw .exhausted
  | _ => resolveClass r name

/-- The resolver of the same depth, but that it allows for no class to be asked for by its own load. -/
def watcher : (depth : Nat) → Resolver Host
  | 0 => outOfDepth
  | depth + 1 =>
    { resolver (depth + 1) with
      resolveClass := watchClass (watcher depth)
      invoke := invokeFunction (watcher depth) }

end Node

section Extends

variable {r s : Resolver Host}

theorem CacheOf.getOrLoad_extends {κ ν : Type} [DecidableEq κ] (c : CacheOf κ ν) (key : κ)
    (cycle : EvalError) {load load' : (ν → Act Host Unit) → Act Host ν}
    (h : ∀ publish, Extends (load' publish) (load publish)) :
    Extends (c.getOrLoad key cycle load') (c.getOrLoad key cycle load) := by
  unfold CacheOf.getOrLoad
  refine .bind (.refl _) fun claim => ?_
  split
  · exact .refl _
  · exact .refl _
  · exact .refl _
  · exact .refl _
  · exact .outcome (h _) (fun o => .refl _) fun m => rfl

theorem Resolver.Extends.buildInstance (h : s.Extends r) (publish : Nat → Act Host Unit)
    (d : Definition) (title : Option String) (seeds : Option (Table String Seed)) :
    Cascade.Extends (Node.buildInstance s publish d title seeds)
      (Node.buildInstance r publish d title seeds) :=
  .bind (.refl _) fun i => .bind (.refl _) fun _ => .bind (h.resolveInstance i) fun _ => .refl _

theorem Resolver.Extends.nodeClass (h : s.Extends r) (name : String) :
    Cascade.Extends (Node.resolveClass s name) (Node.resolveClass r name) := by
  unfold Node.resolveClass
  refine CacheOf.getOrLoad_extends _ _ _ fun publish => .mapError _ (.bind (.refl _) fun d => ?_)
  exact h.buildInstance publish d none none

theorem Resolver.Extends.nodeResource (h : s.Extends r) (typeName title : String) :
    Cascade.Extends (Node.resolveResource s typeName title)
      (Node.resolveResource r typeName title) := by
  unfold Node.resolveResource
  refine CacheOf.getOrLoad_extends _ _ _ fun publish => .mapError _ (.bind (.refl _) fun d => ?_)
  exact .bind (.refl _) fun _ => h.buildInstance publish d _ _

theorem watchClass_extends (h : s.Extends r) (name : String) :
    Cascade.Extends (Node.resolveClass s name) (Node.watchClass r name) := by
  intro m hne
  rw [Node.watchClass, run_bind, run_get] at hne ⊢
  simp only at hne ⊢
  split at hne
  · exact absurd rfl hne
  · exact h.nodeClass name m hne

namespace Node

theorem outOfDepth_extended (n : Nat) : (resolver n).Extends outOfDepth where
  resolveClass _ _ hne := absurd rfl hne
  resolveFunction _ _ hne := absurd rfl hne
  invoke _ _ _ hne := absurd rfl hne
  global? := by cases n <;> rfl
  lookupGlobal := by cases n <;> rfl
  registerSource := by cases n <;> rfl

/-- More depth changes no request that comes to an end. -/
theorem resolver_extends {n n' : Nat} (h : n ≤ n') : (resolver n').Extends (resolver n) := by
  induction n generalizing n' with
  | zero => exact outOfDepth_extended n'
  | succ n ih =>
    obtain ⟨n', rfl⟩ : ∃ k, n' = k + 1 := ⟨n' - 1, by omega⟩
    have hn := ih (Nat.le_of_succ_le_succ h)
    exact ⟨hn.nodeClass, fun _ => .refl _, hn.invokeFunction, rfl, rfl, rfl⟩

theorem resolver_extends_watcher (n : Nat) : (resolver n).Extends (watcher n) := by
  induction n with
  | zero => exact outOfDepth_extended 0
  | succ n ih =>
    exact ⟨watchClass_extends ih, fun _ => .refl _, ih.invokeFunction, rfl, rfl, rfl⟩

end Node

end Extends

section Foretells

variable {L : Library} {r : Resolver Host} {m : Machine Host}

/-- An answer is found in every machine. -/
theorem Library.run_of_answer {depth : Nat} {name : String} {p : Machine Unit}
    (h : L.answer depth name ≠ .error .exhausted) (hp : p.Numbered) :
    let q := ((L.resolver depth).resolveClass name).run p
    q.1.map q.2.view? = L.answer depth name ∧ p.After ∅ q.2 := by
  obtain ⟨hanswer, hb⟩ := (resolver_follows (L := L) (Nat.le_refl depth)).resolveClass name
    ⟨trivial, hp, start_numbered⟩ (run_ne_of_answer_ne h)
  exact ⟨hanswer, hb.left⟩

/-- What is so at every depth but the first. -/
theorem eventually_of_succ {P : Nat → Prop} (h : ∀ᶠ d in atTop, P (d + 1)) :
    ∀ᶠ d in atTop, P d := by
  rw [← map_add_atTop_eq_nat 1]
  exact eventually_map.mpr h

theorem eventually_ready {G : Guard Host} {P : Nat → Machine Unit → Prop}
    (h : G.Holds m → m.Numbered → ∀ᶠ d in atTop, ∀ p : Machine Unit, p.Numbered → P d p) :
    ∀ᶠ d in atTop, ∀ p, G.Ready m p → P d p := by
  by_cases hm : G.Holds m ∧ m.Numbered
  · filter_upwards [h hm.1 hm.2] with d hd p hp
    exact hd p hp.right
  · exact .of_forall fun d p hp => absurd ⟨hp.holds, hp.left⟩ hm

/-- A class that is loaded to the end tells what it is without caches. -/
theorem Node.resolveClass_foretells (hr : r.Foretells (Machine.guard L 0) L.resolver)
    (name : String) (h : m.Coherent L 0) (hn : m.Numbered)
    (hslot : m.host.node.classes.slots.get? (Name.normalize name) = none)
    (hne : ((resolveClass r name).run m).1 ≠ .error .exhausted) :
    ∀ᶠ d in atTop, ∀ p : Machine Unit, p.Numbered →
      (((L.resolver d).resolveClass name).run p).1.map
        (((L.resolver d).resolveClass name).run p).2.view? =
          ((resolveClass r name).run m).1.map ((resolveClass r name).run m).2.view? ∧
      (Machine.guard L 0).Beyond m ((resolveClass r name).run m).2 p
        (((L.resolver d).resolveClass name).run p).2 := by
  have hnormal := Name.normalize_normalize name
  have hload := run_resolveClass_load (r := r) hslot
  rw [h.library] at hload
  rw [hload] at hne ⊢
  refine eventually_of_succ ?_
  cases hd : L.find .hostClass (Name.normalize name) with
  | error e =>
    refine .of_forall fun d p hp => ?_
    have hright : ((L.resolver (d + 1)).resolveClass name).run p = _ :=
      Library.run_resolveClass_error hd p
    obtain ⟨hholds, hpassed⟩ := h.concludeError le_rfl hslot hnormal rfl
      (.compilation .hostClass (Name.normalize name) e)
    rw [hright]
    exact ⟨rfl, hholds, hpassed, .of_host ∅ m _, .refl ∅ p⟩
  | ok f =>
    rw [hd] at hne
    simp only at hne ⊢
    have hright := fun d p => Library.run_resolveClass (s := L.resolver d) hd p
    have hinner : ((resolveInstance r m.instances.length).run { m.withInstance f none none with
        host := m.host.showing (Name.normalize name) m.instances.length }).1 ≠
          .error .exhausted := resolvedAs_ne.mp hne
    have hresolved := hr.resolveInstance f none none
      (h.showing le_rfl hslot hnormal rfl f) (h.open_showing hslot) hinner
    -- What the class is without caches is told by the empty machine.
    obtain ⟨n, hn'⟩ := hresolved.exists
    obtain ⟨hstart, hq⟩ := hn' (.start ()) ⟨h, hn, Library.start_numbered⟩
    have hsees : L.answer (n + 1) name = _ := (Library.answer_succ hd n).trans
      (view?_resolvedAs .hostClass (Name.normalize name) hstart hq.view.symm)
    obtain ⟨hholds, hpassed⟩ := h.concludeInstance hslot hnormal hq.holds hq.passed hq.lt
      (hsees.symm.trans (Library.answer_normalize L (n + 1) name).symm) hinner
    filter_upwards [hresolved] with d hd p hp
    obtain ⟨hresult, hq'⟩ := hd p ⟨h, hn, hp⟩
    have hrun : ((L.resolver (d + 1)).resolveClass name).run p = _ := hright d p
    rw [hrun]
    exact ⟨view?_resolvedAs _ _ hresult hq'.view.symm, hholds, hpassed,
      hq'.left.trans (.of_host ∅ _ _), hq'.right⟩

theorem Node.run_watchClass (name : String)
    (h : ∀ f, m.host.node.classes.slots.get? (Name.normalize name) ≠ some (.loading f)) :
    (watchClass r name).run m = (resolveClass r name).run m := by
  rw [watchClass, run_bind, run_get]
  simp only

theorem Node.run_watchClass_loading {name : String} {f : Nat}
    (h : m.host.node.classes.slots.get? (Name.normalize name) = some (.loading f)) :
    (watchClass r name).run m = (.error .exhausted, m) := by
  rw [watchClass, run_bind, run_get]
  simp only [h]
  rfl

/-- A class in the cache tells what it is, and any other is loaded. -/
theorem Node.watchClass_foretells (hr : r.Foretells (Machine.guard L 0) L.resolver) (name : String)
    (hne : ((watchClass r name).run m).1 ≠ .error .exhausted) :
    ∀ᶠ d in atTop, ∀ p, (Machine.guard L 0).Ready m p →
      (((L.resolver d).resolveClass name).run p).1.map
        (((L.resolver d).resolveClass name).run p).2.view? =
          ((watchClass r name).run m).1.map ((watchClass r name).run m).2.view? ∧
      (Machine.guard L 0).Beyond m ((watchClass r name).run m).2 p
        (((L.resolver d).resolveClass name).run p).2 := by
  refine eventually_ready fun h hn => ?_
  cases hslot : m.host.node.classes.slots.get? (Name.normalize name) with
  | none =>
    rw [run_watchClass name (by simp [hslot])] at hne ⊢
    exact resolveClass_foretells hr name h hn hslot hne
  | some s =>
    cases s with
    | ready i =>
      rw [run_watchClass name (by simp [hslot]), Node.resolveClass,
        CacheOf.run_getOrLoad_ready (fun _ => rfl) hslot]
      obtain ⟨-, n, hanswer⟩ := h.ready _ i hslot
      filter_upwards [eventually_ge_atTop n] with d hd p hp
      have hsame : L.answer d name = .ok (m.view? i) := by
        rw [← Library.answer_normalize, Library.answer_mono hd (by rw [hanswer]; simp), hanswer]
      obtain ⟨hview, hafter⟩ := Library.run_of_answer (by rw [hsame]; simp) hp
      exact ⟨hview.trans hsame, h, (Machine.guard L 0).passed_of_host rfl, .refl ∅ m, hafter⟩
    | loading f =>
      rw [run_watchClass_loading hslot] at hne
      exact absurd rfl hne

theorem Node.watcher_global? (n : Nat) (h : Host) : (watcher n).global? h = h.node.global? := by
  cases n <;> rfl

theorem Node.watcher_lookupGlobal (n : Nat) (h : Host) :
    (watcher n).lookupGlobal h = h.node.lookupGlobal := by
  cases n <;> rfl

theorem Node.watcher_registerSource (n : Nat) (kind : SourceKind) (name : String) (level : Nat)
    (h : Host) : (watcher n).registerSource kind name level h =
      { h with node := h.node.registerSource kind name level } := by
  cases n <;> rfl

/-- What the watcher lets through comes out as it would without caches. -/
theorem Node.watcher_foretells (L : Library) (n : Nat) :
    (watcher n).Foretells (Machine.guard L 0) L.resolver := by
  induction n using Nat.strong_induction_on with
  | _ n ih =>
    refine
      { resolveClass := fun {m} name hne => ?_
        resolveFunction := fun {m} name hne => ?_
        invoke := fun {m} f args hne => ?_
        global? := fun {m} d name h => ?_
        lookupGlobal := fun {m} d name h => ?_
        registerSource := fun kind name level h => ?_ }
    · cases n with
      | zero => exact absurd rfl hne
      | succ n => exact watchClass_foretells (ih n n.lt_succ_self) name hne
    · cases n with
      | zero => exact absurd rfl hne
      | succ n =>
        refine eventually_ready fun h hn => eventually_of_succ (.of_forall fun d p hp => ?_)
        obtain ⟨m', hrun, hholds, hpassed, hafter⟩ := h.resolveFunction n name
        have hleft : ((watcher (n + 1)).resolveFunction name).run m = _ := hrun
        have hright : ((L.resolver (d + 1)).resolveFunction name).run p = _ :=
          Library.run_resolveFunction name p
        rw [hleft, hright]
        exact ⟨rfl, hholds, hpassed, hafter, .refl ∅ p⟩
    · cases n with
      | zero => exact absurd rfl hne
      | succ n => exact eventually_of_succ ((ih n n.lt_succ_self).invokeFunction f args hne)
    · rw [watcher_global?, Library.resolver_global?, ← h.library]
      rfl
    · rw [watcher_lookupGlobal, Library.resolver_lookupGlobal, ← h.library]
      rfl
    · rw [watcher_registerSource]
      exact h.registerSource kind name level

end Foretells

end Cascade
