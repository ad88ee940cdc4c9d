import Cascade.Proofs.Eval.Maintain
import Cascade.Proofs.Node.Overrides
/-!
What a node gathers in its cache of classes. While anything is evaluated the cache only grows: what it
has it keeps, and what it shows of a class that is under way it goes on showing. A class that is new to
it has been loaded to the end, so if what comes of loads is good, everything that is gathered is.
-/
namespace Cascade

variable {Good : Compiled → Instance → Prop} {own own' : Set Part}

namespace CacheOf

variable {κ ν : Type} [DecidableEq κ] {c : CacheOf κ ν} {key : κ} {f : Nat}
  {q : Except Fault ν × Machine Host}

/-- However a load ends, its slot has what has come of it. -/
theorem slot_conclude (hc : ∀ n cache, c.get (c.set n cache) = cache)
    (h : (c.get q.2.host.node).slots.get? key = some (.loading f)) (k : κ) :
    (c.get (c.conclude key f q).2.host.node).slots.get? k =
      if key = k then q.1.toOption.map .ready else (c.get q.2.host.node).slots.get? k := by
  obtain ⟨o, m⟩ := q
  by_cases hne : o = .error .exhausted
  · subst hne
    have hload := SingleFlight.loadOf?_eq_some.mpr h
    simp only [conclude, put, hc, SingleFlight.giveUp, SingleFlight.slots_updateFlight,
      SingleFlight.detach, if_pos hload]
    exact Table.get?_erase _ _ _
  · exact get?_conclude hc h hne k

/-- The end of a load is noted with its own flight. -/
theorem flights_conclude (hc : ∀ n cache, c.get (c.set n cache) = cache) (key : κ) :
    (c.get (c.conclude key f q).2.host.node).flights.length =
        (c.get q.2.host.node).flights.length ∧
      ∀ g, f ≠ g → (c.get (c.conclude key f q).2.host.node).flights.get? g =
        (c.get q.2.host.node).flights.get? g := by
  have hstore (cache : Cache κ ν) (r : Except EvalError ν) :
      (cache.store key f r).flights = cache.flights := by
    unfold SingleFlight.store
    split
    · cases r <;> rfl
    · rfl
  have hdetach (cache : Cache κ ν) : (cache.detach key f).flights = cache.flights := by
    unfold SingleFlight.detach
    split <;> rfl
  have hupdate (cache cache' : Cache κ ν) (change : Flight Unit ν EvalError → Flight Unit ν EvalError)
      (hsame : cache.flights = cache'.flights) :
      (cache.updateFlight f change).flights.length = cache'.flights.length ∧
        ∀ g, f ≠ g → (cache.updateFlight f change).flights.get? g = cache'.flights.get? g :=
    ⟨by rw [SingleFlight.length_updateFlight, hsame],
      fun g hg => by rw [SingleFlight.get?_updateFlight, if_neg hg, hsame]⟩
  obtain ⟨o, m⟩ := q
  simp only [conclude, put, hc]
  rcases o with (e | _) | v
  · exact hupdate _ _ _ (hstore _ _)
  · exact hupdate _ _ _ (hdetach _)
  · exact hupdate _ _ _ (hstore _ _)

/-- What is asked for while it is under way is answered with what its flight shows. -/
theorem run_getOrLoad_shown {m : Machine Host} {cycle : EvalError}
    {load : (ν → Act Host Unit) → Act Host ν} (hc : ∀ n, c.set n (c.get n) = n)
    (h : (c.get m.host.node).slots.get? key = some (.loading f)) :
    (c.getOrLoad key cycle load).run m =
      (match ((c.get m.host.node).flights.get? f).bind (·.placeholder) with
        | some v => .ok v
        | none => .error (.error cycle), m) := by
  have hput : c.put m (c.get m.host.node) = m := by
    rw [put, hc]
  have hclaim : (c.get m.host.node).claim () key =
      (.reentrant (((c.get m.host.node).flights.get? f).bind (·.placeholder)),
        c.get m.host.node) := by
    cases hf : (c.get m.host.node).flights.get? f with
    | none => exact SingleFlight.claim_unknown h hf ()
    | some flight => exact SingleFlight.claim_reentrant h hf (.inl rfl)
  rw [getOrLoad, run_bind, run_step]
  simp only [hclaim, hput]
  cases ((c.get m.host.node).flights.get? f).bind (·.placeholder) <;> rfl

end CacheOf

namespace Machine

variable {m m' m'' : Machine Host} {i : Nat}

/-- An instance that is good by what the levels of the node say. -/
def Finished (Good : Compiled → Instance → Prop) (m : Machine Host) (i : Nat) : Prop :=
  ∃ a, m.Has i a ∧ Good m.host.node.compiled a

theorem Finished.since (h : m.Finished Good i) (hs : m.Since Host.course own m')
    (hi : .instance i ∉ own) : m'.Finished Good i := by
  obtain ⟨a, ha, hgood⟩ := h
  refine ⟨a, ⟨ha.lt.trans_le hs.after.length_le, ?_⟩, ?_⟩
  · rw [hs.after.instances i ha.lt hi, ha.instance?]
  · rwa [hs.host.onward.compiled]

/-- All instances that are owned have been made. -/
def Owned (own : Set Part) (m : Machine Host) : Prop := ∀ i, .instance i ∈ own → i < m.instances.length

/-- `m'` has come of `m`, and the cache of classes has only grown. -/
structure Gathers (Good : Compiled → Instance → Prop) (own : Set Part) (m m' : Machine Host) :
    Prop where
  since : m.Since Host.course own m'
  titles : m'.host.node.resources = m.host.node.resources
  kept {k : String} {s : Slot Nat} : m.host.node.classes.slots.get? k = some s →
    m'.host.node.classes.slots.get? k = some s
  flights_le : m.host.node.classes.flights.length ≤ m'.host.node.classes.flights.length
  flight {f : Nat} : f < m.host.node.classes.flights.length →
    m'.host.node.classes.flights.get? f = m.host.node.classes.flights.get? f
  new {k : String} {s : Slot Nat} : m'.host.node.classes.slots.get? k = some s →
    m.host.node.classes.slots.get? k = some s ∨
      ∃ i, s = .ready i ∧ m.instances.length ≤ i ∧ m'.Finished Good i

namespace Gathers

/-- What is done to anything but classes and titles. -/
theorem of_classes (hs : m.Since Host.course own m')
    (hclasses : m'.host.node.classes = m.host.node.classes)
    (htitles : m'.host.node.resources = m.host.node.resources) : m.Gathers Good own m' where
  since := hs
  titles := htitles
  kept hk := hclasses ▸ hk
  flights_le := by rw [hclasses]
  flight _ := by rw [hclasses]
  new hk := .inl (hclasses ▸ hk)

theorem refl (own : Set Part) (m : Machine Host) : m.Gathers Good own m :=
  .of_classes (.refl own m) rfl rfl

theorem trans (h : m.Gathers Good own m') (hown : m.Owned own) (h' : m'.Gathers Good own m'') :
    m.Gathers Good own m'' where
  since := h.since.trans h'.since
  titles := h'.titles.trans h.titles
  kept hk := h'.kept (h.kept hk)
  flights_le := h.flights_le.trans h'.flights_le
  flight hf := (h'.flight (hf.trans_le h.flights_le)).trans (h.flight hf)
  new hk := by
    rcases h'.new hk with hk | ⟨i, rfl, hi, hfinished⟩
    · rcases h.new hk with hk | ⟨i, rfl, hi, hfinished⟩
      · exact .inl hk
      -- A new instance is none of those that are owned, which were there before it.
      · exact .inr ⟨i, rfl, hi, hfinished.since h'.since fun hin => (hown i hin).not_ge hi⟩
    · exact .inr ⟨i, rfl, h.since.after.length_le.trans hi, hfinished⟩

theorem mono (h : m.Gathers Good own m') (hsub : own ⊆ own') : m.Gathers Good own' m' :=
  { h with since := h.since.mono hsub }

end Gathers

variable {key : String}

/-- `b` is `m` with the class `key` under way. -/
structure Opens (key : String) (m b : Machine Host) : Prop where
  length_le : m.instances.length ≤ b.instances.length
  titles : b.host.node.resources = m.host.node.resources
  slot (k : String) : b.host.node.classes.slots.get? k =
    if key = k then some (.loading m.host.node.classes.flights.length)
    else m.host.node.classes.slots.get? k
  flights_le : m.host.node.classes.flights.length ≤ b.host.node.classes.flights.length
  flight {f : Nat} : f < m.host.node.classes.flights.length →
    b.host.node.classes.flights.get? f = m.host.node.classes.flights.get? f

/-- A load begins with a flight of its own in the slot of its class. -/
theorem opens_begun (hnone : m.host.node.classes.slots.get? key = none) :
    m.Opens key { m with host := m.host.begun key } := by
  have hclaimed : (m.host.begun key).node.classes.flights =
      m.host.node.classes.flights.set m.host.node.classes.flights.length ⟨(), none, .running⟩ :=
    congrArg (fun claimed => claimed.2.flights) (SingleFlight.claim_load hnone ())
  refine ⟨le_rfl, rfl, get?_begun hnone, ?_, fun {f} hf => ?_⟩
  · rw [hclaimed, Table.length_set]
    split <;> omega
  · rw [hclaimed]
    exact Table.get?_set_ne _ hf.ne' _

/-- It shows its instance with that flight. -/
theorem opens_showing (hnone : m.host.node.classes.slots.get? key = none) (d : Definition) (i : Nat) :
    m.Opens key { m.withInstance d none none with host := m.host.showing key i } where
  length_le := (m.after_withInstance ∅).length_le
  titles := rfl
  slot k := (get?_showing m key i k).trans (get?_begun hnone k)
  flights_le := (opens_begun hnone).flights_le.trans_eq (SingleFlight.length_updateFlight _ _ _).symm
  flight hf := by
    refine Eq.trans ?_ ((opens_begun hnone).flight hf)
    exact (SingleFlight.get?_updateFlight _ _ _ _).trans (if_neg hf.ne')

section Load

variable {b : Machine Host} {q : Except Fault Nat × Machine Host}

theorem Opens.loading (h : m.Opens key b) (hg : b.Gathers Good own q.2) :
    q.2.host.node.classes.slots.get? key = some (.loading m.host.node.classes.flights.length) :=
  hg.kept ((h.slot key).trans (if_pos rfl))

/-- A class that has been loaded is kept, and nothing else has changed of what there was. -/
theorem Opens.slot_conclude (h : m.Opens key b) (hg : b.Gathers Good own q.2) (k : String) :
    (CacheOf.classes.conclude key m.host.node.classes.flights.length
      q).2.host.node.classes.slots.get? k =
        if key = k then q.1.toOption.map .ready else q.2.host.node.classes.slots.get? k :=
  CacheOf.slot_conclude (c := .classes) (fun _ _ => rfl) (h.loading hg) k

theorem Opens.gathers (h : m.Opens key b) (hg : b.Gathers Good own q.2)
    (hnone : m.host.node.classes.slots.get? key = none)
    (hs : m.Since Host.course ∅
      (CacheOf.classes.conclude key m.host.node.classes.flights.length q).2)
    (hq : ∀ i, q.1 = .ok i → m.instances.length ≤ i ∧ q.2.Finished Good i) :
    m.Gathers Good ∅ (CacheOf.classes.conclude key m.host.node.classes.flights.length q).2 := by
  obtain ⟨hlength, hflights⟩ := CacheOf.flights_conclude (c := .classes)
    (f := m.host.node.classes.flights.length) (q := q) (fun _ _ => rfl) key
  have hdone {i : Nat} (hi : q.2.Finished Good i) :
      (CacheOf.classes.conclude key m.host.node.classes.flights.length q).2.Finished Good i :=
    hi.since (.of_host ∅ (CacheOf.aside_classes q.2.host _)) (Set.notMem_empty _)
  refine ⟨hs, hg.titles.trans h.titles, fun {k s} hk => ?_, ?_, fun {f} hf => ?_, fun {k s} hk => ?_⟩
  · have hne : key ≠ k := by
      rintro rfl
      exact absurd (hnone.symm.trans hk) nofun
    rw [h.slot_conclude hg, if_neg hne]
    exact hg.kept (by rwa [h.slot, if_neg hne])
  · exact (h.flights_le.trans hg.flights_le).trans_eq hlength.symm
  · exact (hflights f hf.ne').trans
      ((hg.flight (hf.trans_le h.flights_le)).trans (h.flight hf))
  · rw [h.slot_conclude hg] at hk
    split at hk
    · rcases ho : q.1 with e | i
      · simp [ho, Except.toOption] at hk
      · obtain rfl : s = .ready i := by simpa [ho, Except.toOption, eq_comm] using hk
        exact .inr ⟨i, rfl, (hq i ho).1, hdone (hq i ho).2⟩
    next hne =>
      rcases hg.new hk with hk | ⟨i, rfl, hi, hfinished⟩
      · rw [h.slot, if_neg hne] at hk
        exact .inl hk
      · exact .inr ⟨i, rfl, h.length_le.trans hi, hdone hfinished⟩

end Load

end Machine

/-- Wherever `x` is run between evaluations, the cache of classes only grows. -/
def Gathering (Good : Compiled → Instance → Prop) {ε α : Type}
    (x : ExceptT ε (StateM (Machine Host)) α) : Prop :=
  ∀ m : Machine Host, m.Numbered → m.Gathers Good ∅ (x.run m).2

/-- A resolver whose requests let the cache grow. -/
structure Resolver.Gathers (Good : Compiled → Instance → Prop) (r : Resolver Host) : Prop where
  spares : r.Spares Host.course
  resolveClass (name : String) : Gathering Good (r.resolveClass name)
  resolveFunction (name : String) : Gathering Good (r.resolveFunction name)
  invoke (d : Definition) (args : List Value) : Gathering Good (r.invoke d args)
  registerSource (name : String) (level : Nat) (h : Host) :
    (r.registerSource .property name level h).node.classes = h.node.classes ∧
      (r.registerSource .property name level h).node.resources = h.node.resources

/-- The instances of classes that a resolver makes are good. -/
def Resolver.Makes (Good : Compiled → Instance → Prop) (r : Resolver Host) : Prop :=
  ∀ (m m' : Machine Host) (d : Definition) (host : Host), m.Numbered → m.host.Further host →
    (resolveInstance r m.instances.length).run { m.withInstance d none none with host := host } =
      (.ok (), m') → m'.Finished Good m.instances.length

namespace Resolver.Gathers

open Machine

variable {r : Resolver Host} {m₀ m : Machine Host} {s : Spot}

/-- So do evaluations with their requests. -/
theorem upholds (hr : r.Gathers Good) (hn : m₀.Numbered) (hown : m₀.Owned s.owns) :
    (s.env r).Upholds (fun _ => True) (m₀.Gathers Good s.owns) := by
  have hquiet {m m' : Machine Host} (h : m₀.Gathers Good s.owns m) (hhost : m'.host = m.host)
      (ha : m.After s.owns m') : m₀.Gathers Good s.owns m' :=
    h.trans hown (.of_classes (.of_after hhost ha) (by rw [hhost]) (by rw [hhost]))
  have hrequest {α : Type} {x : Act Host α} (hx : Gathering Good x) :
      Maintains (m₀.Gathers Good s.owns) x := fun m h =>
    h.trans hown ((hx m (h.since.after.numbered hn)).mono (Set.empty_subset _))
  exact
    { setCell := fun node state h =>
        hquiet h rfl (Machine.after_setCell (by simp [Spot.owns, Spot.env]) _ node state)
      setFrame := fun frame hs h =>
        hquiet h rfl (Machine.after_frame (by
          have hscope : s.scope = .frame := hs
          simp [Spot.owns, hscope, Scope.part]) _ frame)
      update := fun {m number change} hs _ h =>
        hquiet h (m.host_updateInstance _ _) (Machine.after_updateInstance (by
          have hscope : s.scope = .object number := hs
          simp [Spot.owns, hscope, Scope.part]) _ change)
      resolveClass := fun name => hrequest (hr.resolveClass name)
      resolveFunction := fun name => hrequest (hr.resolveFunction name)
      invoke := fun d args => hrequest (hr.invoke d args)
      registerSource := fun {m} name level h => by
        obtain ⟨hclasses, htitles⟩ := hr.registerSource name level m.host
        exact h.trans hown (.of_classes (.of_host _ (hr.spares.registerSource name level m.host))
          hclasses htitles) }

/-- While a new instance is resolved, the cache only grows. -/
theorem resolveNew (hr : r.Gathers Good) (hn : m.Numbered) (d : Definition) (title : Option String)
    (seeds : Option (Table String Seed)) (host : Host) :
    Machine.Gathers Good {.instance m.instances.length, .cells m.copies}
      { m.withInstance d title seeds with host := host }
      ((resolveInstance r m.instances.length).run
        { m.withInstance d title seeds with host := host }).2 := by
  rw [run_resolveInstance_new]
  have hnew : Machine.Numbered { m.withInstance d title seeds with host := host } := hn.withInstance
  have hown : Machine.Owned (Spot.owns ⟨.object m.instances.length, m.copies⟩)
      { m.withInstance d title seeds with host := host } := by
    intro i hi
    obtain rfl : i = m.instances.length := by simpa [Spot.owns, Scope.part] using hi
    exact (Nat.lt_succ_self _).trans_eq hn.length_withInstance.symm
  exact (uniform_instanceSteps (Instance.create d title seeds 0)).maintains
    (hr.upholds (s := ⟨.object m.instances.length, m.copies⟩) hnew hown) rfl _ (.refl _ _)

theorem invokeFunction (hr : r.Gathers Good) (d : Definition) (args : List Value) :
    Gathering Good (Cascade.invokeFunction r d args) := by
  intro m hn
  have hs := hr.spares.invokeFunction d args m
  cases hc : d.checkArity args.length with
  | error e =>
    rw [run_invokeFunction_error hc]
    exact .refl ∅ m
  | ok _ =>
    rw [run_invokeFunction hc, run_withCall] at hs ⊢
    have hown : Machine.Owned (Spot.owns ⟨.frame, m.copies⟩) { m.newCopy.2 with frame := [] } := by
      intro i hi
      exact absurd hi (by simp [Spot.owns, Scope.part])
    have hnew : Machine.Numbered { m.newCopy.2 with frame := [] } := hn
    have hg := (uniform_callSteps d args).maintains
      (hr.upholds (s := ⟨.frame, m.copies⟩) hnew hown) rfl _ (.refl _ _)
    refine ⟨hs, hg.titles, hg.kept, hg.flights_le, hg.flight, fun {k s} hk => ?_⟩
    rcases hg.new hk with hk | ⟨i, rfl, hi, a, ha, hgood⟩
    · exact .inl hk
    · exact .inr ⟨i, rfl, hi, a, ⟨ha.lt, ha.instance?⟩, hgood⟩

end Resolver.Gathers

theorem ok_of_resolvedAs {η : Type} {kind : DefinitionKind} {name : String} {i j : Nat}
    {q : Except Fault Unit × Machine η} (h : (resolvedAs kind name i q).1 = .ok j) :
    q = (.ok (), q.2) := by
  rcases q with ⟨e | u, m⟩
  · simp [resolvedAs, Except.map, Except.mapError] at h
  · rfl

namespace Node

open Machine

variable {r : Resolver Host} {m m' : Machine Host} {name : String}

/-- A class that is not in the cache is loaded into it. -/
theorem exists_of_resolveClass (hr : r.Gathers Good) (hmakes : r.Makes Good) (hn : m.Numbered)
    (hnone : m.host.node.classes.slots.get? (Name.normalize name) = none) :
    m.Gathers Good ∅ ((resolveClass r name).run m).2 ∧ ∀ i, ((resolveClass r name).run m).1 = .ok i →
      ((resolveClass r name).run m).2.host.node.classes.slots.get? (Name.normalize name) =
        some (.ready i) := by
  have hs := spares_resolveClass hr.spares name m
  have hrun := run_resolveClass_load (r := r) hnone
  cases hd : m.host.library.find .hostClass (Name.normalize name) with
  | error e =>
    rw [hd] at hrun
    rw [hrun] at hs ⊢
    have hopens := opens_begun hnone
    have hgathers : Machine.Gathers Good ∅ { m with host := m.host.begun (Name.normalize name) }
        { m with host := m.host.begun (Name.normalize name) } := .refl ∅ _
    exact ⟨hopens.gathers hgathers hnone hs fun i hi => absurd hi nofun,
      fun i hi => absurd hi nofun⟩
  | ok d =>
    rw [hd] at hrun
    rw [hrun] at hs ⊢
    have hopens := opens_showing hnone d m.instances.length
    have hgathers := hr.resolveNew hn d none none
      (m.host.showing (Name.normalize name) m.instances.length)
    refine ⟨hopens.gathers (q := resolvedAs _ _ _ _) hgathers hnone hs fun i hi => ?_,
      fun i hi => ?_⟩
    · obtain rfl := eq_of_resolvedAs hi
      exact ⟨le_rfl, hmakes m _ d _ hn (m.host.further_showing _ _) (ok_of_resolvedAs hi)⟩
    · refine (hopens.slot_conclude (q := resolvedAs _ _ _ _) hgathers _).trans ?_
      rw [if_pos rfl]
      exact congrArg (fun o => o.toOption.map Slot.ready) hi

theorem gathering_resolveClass (hr : r.Gathers Good) (hmakes : r.Makes Good) (name : String) :
    Gathering Good (resolveClass r name) := by
  intro m hn
  cases hslot : m.host.node.classes.slots.get? (Name.normalize name) with
  | none => exact (exists_of_resolveClass hr hmakes hn hslot).1
  | some s =>
    cases s with
    | ready i =>
      rw [resolveClass, CacheOf.run_getOrLoad_ready (fun _ => rfl) hslot]
      exact .refl ∅ m
    | loading f =>
      rw [resolveClass, CacheOf.run_getOrLoad_shown (c := .classes) (fun _ => rfl) hslot]
      exact .refl ∅ m

section Functions

variable {P : Machine Host → Prop}

/-- Functions are kept in a cache of their own. -/
theorem maintains_resolveFunction
    (hcache : ∀ m cache, P m → P (CacheOf.functions.put m cache))
    (hworld : ∀ (m : Machine Host) world, P m → P { m with host := { m.host with world } })
    (name : String) : Maintains P (resolveFunction name) := by
  have hstep {α : Type} (change : Cache String LoadedFunction → α × Cache String LoadedFunction) :
      Maintains P (CacheOf.functions.step change) := fun m => hcache m _
  have hload : Maintains P (loadFunction (Name.normalize name)) := by
    intro m hm
    obtain ⟨world, -, o, hrun, -⟩ := run_loadFunction (Name.normalize name) m
    rw [hrun]
    exact hworld m world hm
  have hget : Maintains P (CacheOf.functions.getOrLoad (Name.normalize name)
      (.cycle .function (Name.normalize name)) fun _ => loadFunction (Name.normalize name)) := by
    unfold CacheOf.getOrLoad
    refine .bind (hstep _) fun claim => ?_
    split
    · exact .pure _
    · exact .pure _
    · exact .throw _
    · exact .throw _
    · have hattempt : Maintains P (Act.attempt (loadFunction (Name.normalize name))) := hload
      refine .bind hattempt fun o => ?_
      split
      · exact .bind (hstep _) fun _ => .pure _
      · exact .bind (hstep _) fun _ => .throw _
      · exact .bind (hstep _) fun _ => .throw _
  unfold resolveFunction
  refine Maintains.bind (x := Act.attempt _) hget fun found => ?_
  split
  · exact .pure _
  · exact .pure _
  · exact .throw _
  · exact .throw _

end Functions

theorem gathering_resolveFunction (name : String) : Gathering Good (resolveFunction name) := by
  intro m _
  have hsame : Maintains (fun m' : Machine Host => m'.host.node.classes = m.host.node.classes ∧
      m'.host.node.resources = m.host.node.resources) (resolveFunction name) :=
    maintains_resolveFunction (fun _ _ h => h) (fun _ _ h => h) name
  obtain ⟨hclasses, htitles⟩ := hsame m ⟨rfl, rfl⟩
  exact .of_classes (spares_resolveFunction name m) hclasses htitles

/-- However deep requests nest, they only let the cache grow. -/
theorem resolver_gathers (hmakes : ∀ depth, (resolver depth).Makes Good) (depth : Nat) :
    (resolver depth).Gathers Good := by
  induction depth with
  | zero =>
    have hthrow {α : Type} : Gathering Good (throw .exhausted : Act Host α) := fun m _ => .refl ∅ m
    exact ⟨resolver_spares 0, fun _ => hthrow, fun _ => hthrow, fun _ _ => hthrow,
      fun _ _ _ => ⟨rfl, rfl⟩⟩
  | succ depth ih =>
    refine ⟨resolver_spares (depth + 1), gathering_resolveClass ih (hmakes depth), fun name => ?_,
      ih.invokeFunction, fun _ _ _ => ⟨rfl, rfl⟩⟩
    intro m hn
    have hg : m.Gathers Good ∅ ((resolveFunction name).run m).2 := gathering_resolveFunction name m hn
    change m.Gathers Good ∅ ((resolveFunction name >>= fun f => pure (f.map (·.definition))).run m).2
    rw [run_bind]
    rcases hrun : (resolveFunction name).run m with ⟨e | f, m'⟩ <;> rwa [hrun] at hg

end Node
end Cascade
