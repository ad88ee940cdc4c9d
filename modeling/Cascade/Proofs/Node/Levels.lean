import Cascade.Node.Dump
import Cascade.Proofs.Node.Gathering
import Cascade.Proofs.Node.Globals
import Cascade.Proofs.Node.Transparency
/-!
The levels that are told with the properties of an instance. When a parameter is resolved and a level
overrides it, value and level are noted together; what is assigned later replaces the value and leaves
the level. So the level that is told is where the value has come from, as long as nothing assigns the
parameter after it has been resolved.
-/
namespace Cascade

open Machine

namespace Compiled

variable {c : Compiled} {key : String} {v : Value} {level : Nat}

theorem mem_lookupFrom {ls : List CompiledLevel} {n : Nat}
    (h : (v, level) ∈ lookupFrom key n ls) :
    ∃ i l, ls[i]? = some l ∧ n + i = level ∧ l.get? key = some v := by
  induction ls generalizing n with
  | nil => exact absurd h List.not_mem_nil
  | cons l ls ih =>
    have hrest {n' : Nat} (hn : n' = n + 1) (h : (v, level) ∈ lookupFrom key n' ls) :
        ∃ i l', (l :: ls)[i]? = some l' ∧ n + i = level ∧ l'.get? key = some v := by
      obtain ⟨i, l', hl, hi, hv⟩ := ih h
      exact ⟨i + 1, l', hl, by omega, hv⟩
    unfold lookupFrom at h
    split at h
    next w hw =>
      rcases List.mem_cons.mp h with he | h
      · obtain ⟨rfl, rfl⟩ := Prod.mk.inj he
        exact ⟨0, l, rfl, rfl, hw⟩
      · exact hrest rfl h
    next => exact hrest rfl h

/-- What a level gives to a parameter of a class: the value of the key made of the names of both, which
no level before it has. -/
def GivesClass (c : Compiled) (name : String) (param : String) (level : Nat) (v : Value) : Prop :=
  c.DefinedAt (Name.bare (overrideKey name param)) level v

/-- What a level gives to a parameter of a title: the value in the entry that its `resources` have for
the title. -/
def GivesTitle (c : Compiled) (key : String × String) (param : String) (level : Nat) (v : Value) :
    Prop :=
  ∃ l data params, c.levels[level]? = some l ∧ l.get? Node.resourcesKey = some data ∧
    Node.titleParams? key.1 key.2 data = some params ∧ Table.get? params param = some v

end Compiled

namespace Node

variable {n : Node} {param : String} {level : Nat} {v : Value}

/-- A fact that overrides a parameter is on no level. -/
theorem givesClass_of_overrideOf? {name : String}
    (h : n.overrideOf? name param = some ⟨v, some level⟩) :
    n.compiled.GivesClass name param level v := by
  unfold overrideOf? at h
  cases hf : n.factLike? (Name.bare (overrideKey name param)) with
  | some w => simp [hf] at h
  | none =>
    simp only [hf] at h
    change (n.compiled.lookup _).map _ = _ at h
    obtain ⟨found, hfound, hseed⟩ := Option.map_eq_some_iff.mp h
    obtain ⟨rfl, hlevel⟩ := Seed.mk.inj hseed
    obtain rfl := Option.some.inj hlevel
    exact Compiled.lookup_eq_some_iff.mp hfound

theorem givesTitle_of_seedsOf {c : Compiled} {key : String × String}
    (h : (seedsOf c key.1 key.2).get? param = some ⟨v, some level⟩) :
    c.GivesTitle key param level v := by
  unfold seedsOf at h
  cases hfound : (c.lookupAll resourcesKey).findSome? fun e => (titleParams? key.1 key.2 e.1).map
      fun params => Table.mapValues (fun v => (⟨v, some e.2⟩ : Seed)) params with
  | none => simp [hfound] at h
  | some seeds =>
    simp only [hfound, Option.getD_some] at h
    obtain ⟨⟨data, k⟩, hmem, hseeds⟩ := List.exists_of_findSome?_eq_some hfound
    obtain ⟨params, hparams, rfl⟩ := Option.map_eq_some_iff.mp hseeds
    rw [Table.get?_mapValues] at h
    obtain ⟨w, hw, hseed⟩ := Option.map_eq_some_iff.mp h
    obtain ⟨rfl, hk⟩ := Seed.mk.inj hseed
    obtain rfl : k = level := Option.some.inj hk
    obtain ⟨i, l, hl, hi, hdata⟩ := Compiled.mem_lookupFrom hmem
    rw [Nat.zero_add] at hi
    exact ⟨l, data, params, hi ▸ hl, hdata, hparams, hw⟩

end Node

/-- Nothing assigns a parameter once it has been resolved. -/
def Definition.Settled (d : Definition) (param : String) : Prop := ∃ q, d.Settles q ∧ q.name = param

namespace Instance

/-- An instance tells of a value which level it comes from, and so does every dump of it. -/
def Tells (i : Instance) (param : String) (v : Value) (level : Nat) : Prop :=
  i.Shows param v level ∧ ∀ included, ∃ d, (InstanceDump.ofInstance i included).property? param =
    some d ∧ d.value = some v.toJson ∧ d.overriddenAt = some level

/-- Every level that is told gives the parameter a value, and that is the value of the parameter unless
something assigns it later. -/
def Accurate (i : Instance) (gives : String → Nat → Value → Prop) : Prop :=
  ∀ param level, i.overrides.get? param = some level → ∃ v, gives param level v ∧
    (i.definition.Settled param → i.Tells param v level)

variable {i : Instance} {param : String} {v : Value} {level : Nat}

theorem property?_ofInstance (i : Instance) (included : Option Nat) (param : String) :
    (InstanceDump.ofInstance i included).property? param =
      (i.properties.get? param).map fun p =>
        PropertyDump.ofProperty param p (i.overrides.get? param) := by
  change (i.properties.map _).find? _ = _
  induction i.properties with
  | nil => rfl
  | cons e ps ih =>
    obtain ⟨name, p⟩ := e
    rw [List.map_cons, List.find?_cons, Table.get?_cons, ih]
    by_cases hname : name = param
    · subst hname
      simp [PropertyDump.ofProperty]
    · simp [PropertyDump.ofProperty, hname]

theorem Shows.tells (h : i.Shows param v level) : i.Tells param v level := by
  refine ⟨h, fun included => ?_⟩
  obtain ⟨p, hp, hv⟩ := Option.bind_eq_some_iff.mp h.1
  exact ⟨_, (property?_ofInstance i included param).trans (congrArg _ hp),
    congrArg (Option.map Value.toJson) hv, h.2⟩

end Instance

section Resolution

variable {η : Type} {Q : Course η} {r : Resolver η} {seedOf : String → Option Seed} {host : η}
  {m m' : Machine η} {d : Definition} {title : Option String} {seeds : Option (Table String Seed)}

/-- The levels of a new instance are those of what overrides its parameters. -/
theorem levelOf_of_resolveInstance (hr : r.Spares Q) (hm : m.Numbered)
    (hseed : Overrides Q r (Instance.create d title seeds m.copies) host seedOf)
    (h : (resolveInstance r m.instances.length).run
      { m.withInstance d title seeds with host := host } = (.ok (), m')) :
    ∃ a, m'.Has m.instances.length a ∧ ∀ param level, a.overrides.get? param = some level →
      levelOf seedOf param = some level := by
  obtain ⟨a, ha, hresolves⟩ := resolves_of_resolveInstance hr hm hseed h
  refine ⟨a, ha, fun param level hlevel => ?_⟩
  rw [hresolves.level] at hlevel
  split at hlevel
  · simpa [Instance.create, Option.orElse_none] using hlevel
  · exact absurd hlevel (by simp [Instance.create])

/-- A new instance tells levels as they are. -/
theorem accurate_of_resolveInstance (hr : r.Spares Q) (hm : m.Numbered)
    (hseed : Overrides Q r (Instance.create d title seeds m.copies) host seedOf)
    {gives : String → Nat → Value → Prop}
    (hgives : ∀ param level v, seedOf param = some ⟨v, some level⟩ → gives param level v)
    (h : (resolveInstance r m.instances.length).run
      { m.withInstance d title seeds with host := host } = (.ok (), m')) :
    ∃ a, m'.Has m.instances.length a ∧ a.definition = d ∧ a.Accurate gives := by
  obtain ⟨a, ha, hlevels⟩ := levelOf_of_resolveInstance hr hm hseed h
  obtain ⟨a', ha', hd, hshown⟩ := shown_of_resolveInstance hr hm hseed h
  obtain rfl := Option.some.inj (ha.instance?.symm.trans ha'.instance?)
  refine ⟨a, ha, hd, fun param level hlevel => ?_⟩
  -- The level stands for a seed in every case; what is shown is the seed only if nothing assigns later.
  obtain ⟨⟨v, k⟩, hfound, rfl⟩ := Option.bind_eq_some_iff.mp (hlevels param level hlevel)
  refine ⟨v, hgives param level v hfound, ?_⟩
  rintro ⟨q, hq, rfl⟩
  obtain ⟨default, -, hshown⟩ := hshown q (hd ▸ hq)
  exact (hshown.shows_iff.mpr hfound).tells

end Resolution

/-- The instance of a class, by the levels that give its parameters. -/
def Instance.AccurateClass (c : Compiled) (i : Instance) : Prop := i.Accurate (c.GivesClass i.name)

/-- The instance of a title. -/
def Instance.AccurateTitle (key : String × String) (c : Compiled) (i : Instance) : Prop :=
  i.Accurate (c.GivesTitle key)

namespace Node

/-- While an instance is resolved, the levels of the node stay as they are. -/
theorem compiled_of_resolveInstance {depth : Nat} {m m' : Machine Host} {d : Definition}
    {title : Option String} {seeds : Option (Table String Seed)} {host : Host}
    (hfurther : m.host.Further host)
    (h : (resolveInstance (resolver depth) m.instances.length).run
      { m.withInstance d title seeds with host := host } = (.ok (), m')) :
    m'.host.node.compiled = m.host.node.compiled := by
  have hsince := (resolver_spares depth).resolveNew d title seeds hfurther
  rw [h] at hsince
  exact hsince.host.onward.compiled

theorem resolver_makes (depth : Nat) : (resolver depth).Makes Instance.AccurateClass := by
  intro m m' d host hm hfurther h
  have hgives : ∀ param level v, host.node.overrideOf? d.name param = some ⟨v, some level⟩ →
      host.node.compiled.GivesClass d.name param level v :=
    fun param level v hfound => givesClass_of_overrideOf? hfound
  obtain ⟨a, ha, rfl, haccurate⟩ := accurate_of_resolveInstance (resolver_spares depth) hm
    (host.overrides depth m.copies d) hgives h
  have hcompiled := (compiled_of_resolveInstance hfurther h).trans hfurther.onward.compiled.symm
  refine ⟨a, ha, ?_⟩
  rw [hcompiled]
  exact haccurate

/-- However deep requests nest, the classes that they add to the cache tell levels as they are. -/
theorem resolver_gathers_accurate (depth : Nat) :
    (resolver depth).Gathers Instance.AccurateClass :=
  resolver_gathers resolver_makes depth

end Node

namespace Machine

variable {m m' m'' : Machine Host} {depth : Nat}

/-- A cache has lost slots at most, and gained instances that are good. -/
def Fresh {κ : Type} [DecidableEq κ] (Good : κ → Compiled → Instance → Prop) (m : Machine Host)
    (slots slots' : Table κ (Slot Nat)) : Prop :=
  ∀ k s, slots'.get? k = some s → slots.get? k = some s ∨ ∃ i, s = .ready i ∧ m.Finished (Good k) i

section Fresh

variable {κ : Type} [DecidableEq κ] {Good : κ → Compiled → Instance → Prop}
  {slots slots' slots'' : Table κ (Slot Nat)}

theorem Fresh.of_lost (h : ∀ k s, slots'.get? k = some s → slots.get? k = some s) :
    m.Fresh Good slots slots' :=
  fun k s hk => .inl (h k s hk)

theorem Fresh.trans (h : m.Fresh Good slots slots') (hs : m.Since Host.course ∅ m')
    (h' : m'.Fresh Good slots' slots'') : m'.Fresh Good slots slots'' := by
  intro k s hk
  rcases h' k s hk with hk | hnew
  · rcases h k s hk with hk | ⟨i, hi, hfinished⟩
    · exact .inl hk
    · exact .inr ⟨i, hi, hfinished.since hs (Set.notMem_empty _)⟩
  · exact .inr hnew

theorem Fresh.of_ready {k : κ} {i : Nat} (h : m'.Fresh Good slots slots')
    (hs : m.Since Host.course ∅ m') (hk : slots'.get? k = some (.ready i)) :
    slots.get? k = some (.ready i) ∨
      ∃ a, m'.instance? i = some a ∧ Good k m.host.node.compiled a := by
  rcases h k _ hk with hk | ⟨j, hj, a, ha, hgood⟩
  · exact .inl hk
  · obtain rfl := Slot.ready.inj hj
    exact .inr ⟨a, ha.instance?, hs.host.onward.compiled ▸ hgood⟩

end Fresh

section Grown

variable {GoodClass : Compiled → Instance → Prop}
  {GoodTitle : String × String → Compiled → Instance → Prop}

/-- What requests for classes have gathered is fresh. -/
theorem Gathers.fresh {own : Set Part} (h : m.Gathers GoodClass own m') :
    m'.Fresh (fun _ => GoodClass) m.host.node.classes.slots m'.host.node.classes.slots := by
  intro k s hk
  rcases h.new hk with hk | ⟨i, hs, -, hfinished⟩
  · exact .inl hk
  · exact .inr ⟨i, hs, hfinished⟩

/-- Nothing is being loaded. -/
structure Idle (m : Machine Host) : Prop where
  classes {k : String} {f : Nat} : m.host.node.classes.slots.get? k ≠ some (.loading f)
  titles {k : String × String} {f : Nat} : m.host.node.resources.slots.get? k ≠ some (.loading f)

/-- What requests do to the caches of classes and titles, if what they load is good. -/
structure Grown (GoodClass : Compiled → Instance → Prop)
    (GoodTitle : String × String → Compiled → Instance → Prop) (m m' : Machine Host) : Prop where
  since : m.Since Host.course ∅ m'
  classes : m'.Fresh (fun _ => GoodClass) m.host.node.classes.slots m'.host.node.classes.slots
  titles : m'.Fresh GoodTitle m.host.node.resources.slots m'.host.node.resources.slots

namespace Grown

theorem refl (m : Machine Host) : m.Grown GoodClass GoodTitle m :=
  ⟨.refl ∅ m, .of_lost fun _ _ hk => hk, .of_lost fun _ _ hk => hk⟩

theorem trans (h : m.Grown GoodClass GoodTitle m') (h' : m'.Grown GoodClass GoodTitle m'') :
    m.Grown GoodClass GoodTitle m'' where
  since := h.since.trans h'.since
  classes := h.classes.trans h'.since h'.classes
  titles := h.titles.trans h'.since h'.titles

theorem of_gathers (h : m.Gathers GoodClass ∅ m') : m.Grown GoodClass GoodTitle m' where
  since := h.since
  classes := h.fresh
  titles := .of_lost fun _ _ hk => h.titles ▸ hk

theorem idle (h : m.Grown GoodClass GoodTitle m') (hm : m.Idle) : m'.Idle where
  classes hk := by
    rcases h.classes _ _ hk with hk | ⟨i, hi, -⟩
    · exact hm.classes hk
    · exact absurd hi nofun
  titles hk := by
    rcases h.titles _ _ hk with hk | ⟨i, hi, -⟩
    · exact hm.titles hk
    · exact absurd hi nofun

end Grown

end Grown

end Machine

/-- The instances that a resolver makes of titles are good, wherever a host has gone on to from `base`. -/
def Resolver.MakesTitles (base : Host) (Good : String × String → Compiled → Instance → Prop)
    (r : Resolver Host) : Prop :=
  ∀ (m m' : Machine Host) (d : Definition) (key : String × String) (host : Host), m.Numbered →
    base.Further m.host → m.host.Further host →
    (resolveInstance r m.instances.length).run { m.withInstance d (some key.2)
      (some (Node.seedsOf m.host.node.compiled key.1 key.2)) with host := host } = (.ok (), m') →
    m'.Finished (Good key) m.instances.length

namespace Node

open Machine

variable {m m' : Machine Host} {depth : Nat} {key : String × String} {d : Definition}
  {GoodClass : Compiled → Instance → Prop} {GoodTitle : String × String → Compiled → Instance → Prop}
  {base : Host}

/-- What overrides the parameters of a title has been given to it in the beginning. -/
theorem overrides_of_seeds {η : Type} (Q : Course η) (r : Resolver η) (d : Definition)
    (title : Option String) (seeds : Table String Seed) (copy : Nat) (host : η) :
    Overrides Q r (Instance.create d title (some seeds) copy) host seeds.get? :=
  fun _ _ _ => rfl

theorem further_showingTitle (m : Machine Host) (key : String × String) (i : Nat) :
    m.host.Further (m.host.showingTitle key i) :=
  ⟨m.onward_showingTitle key i, rfl, fun _ => rfl⟩

/-- The end of a load adds a title to the cache if it has been made, and nothing else. -/
theorem grown_concludeTitle {q : Except Fault Nat × Machine Host}
    (hs : m.Since Host.course ∅
      (CacheOf.resources.conclude key m.host.node.resources.flights.length q).2)
    (hclasses : q.2.Fresh (fun _ => GoodClass) m.host.node.classes.slots
      q.2.host.node.classes.slots)
    (hslots : ∀ k, q.2.host.node.resources.slots.get? k =
      if key = k then some (.loading m.host.node.resources.flights.length)
      else m.host.node.resources.slots.get? k)
    (hq : ∀ i, q.1 = .ok i → q.2.Finished (GoodTitle key) i) :
    m.Grown GoodClass GoodTitle (CacheOf.resources.conclude key m.host.node.resources.flights.length q).2 ∧
      ∀ i, q.1 = .ok i → (CacheOf.resources.conclude key m.host.node.resources.flights.length
        q).2.host.node.resources.slots.get? key = some (.ready i) := by
  have hslot := CacheOf.slot_conclude (c := .resources) (fun _ _ => rfl)
    ((hslots key).trans (if_pos rfl))
  have hput : q.2.Since Host.course ∅
      (CacheOf.resources.conclude key m.host.node.resources.flights.length q).2 :=
    .of_host ∅ (CacheOf.aside_resources q.2.host _)
  refine ⟨⟨hs, hclasses.trans hput (.of_lost fun _ _ hk => hk), fun k s hk => ?_⟩, fun i hi => ?_⟩
  · have hk := (hslot k).symm.trans hk
    by_cases hkey : key = k
    · subst hkey
      rw [if_pos rfl] at hk
      rcases ho : q.1 with e | i
      · exact absurd (hk.symm.trans (congrArg (fun o => o.toOption.map Slot.ready) ho)) nofun
      · have hready := hk.symm.trans (congrArg (fun o => o.toOption.map Slot.ready) ho)
        exact .inr ⟨i, Option.some.inj hready, (hq i ho).since hput (Set.notMem_empty _)⟩
    · rw [if_neg hkey] at hk
      exact .inl (((hslots k).trans (if_neg hkey)).symm.trans hk)
  · refine (hslot key).trans ((if_pos rfl).trans ?_)
    rw [hi]
    rfl

/-- A title that is not in the cache is loaded into it, with classes that it needs. -/
theorem grown_of_resolveResource (hg : (resolver depth).Gathers GoodClass)
    (ht : (resolver depth).MakesTitles base GoodTitle) (hbase : base.Further m.host) (hn : m.Numbered)
    {typeName title : String}
    (hnone : m.host.node.resources.slots.get? (Name.normalize typeName, title) = none) :
    m.Grown GoodClass GoodTitle ((resolveResource (resolver depth) typeName title).run m).2 ∧
      ∀ i, ((resolveResource (resolver depth) typeName title).run m).1 = .ok i →
        ((resolveResource (resolver depth) typeName title).run m).2.host.node.resources.slots.get?
          (Name.normalize typeName, title) = some (.ready i) := by
  have hs := spares_resolveResource (resolver_spares depth) typeName title m
  have hrun := run_resolveResource_load (r := resolver depth) hnone
  cases hd : m.host.library.find .definedType (Name.normalize typeName) with
  | error e =>
    simp only [hd] at hrun
    rw [hrun] at hs ⊢
    refine grown_concludeTitle hs (.of_lost fun _ _ hk => hk) (get?_begunTitle hnone) fun i hi => ?_
    cases hi
  | ok d =>
    simp only [hd] at hrun
    rw [hrun] at hs ⊢
    have hfurther := further_showingTitle m (Name.normalize typeName, title) m.instances.length
    have hnew := hg.resolveNew hn d (some title)
      (some (seedsOf m.host.node.compiled (Name.normalize typeName) title))
      (m.host.showingTitle (Name.normalize typeName, title) m.instances.length)
    refine grown_concludeTitle (q := resolvedAs _ _ _ _) hs hnew.fresh (fun k => ?_) fun i hi => ?_
    · refine (congrArg (fun c => c.slots.get? k) hnew.titles).trans ?_
      exact (get?_showingTitle m _ _ k).trans (get?_begunTitle hnone k)
    · obtain rfl := eq_of_resolvedAs hi
      exact ht m _ d (Name.normalize typeName, title) _ hn hbase hfurther (ok_of_resolvedAs hi)

/-- A request for a class puts it into the cache, or leaves it there. -/
theorem grown_resolveClass (hg : (resolver depth).Gathers GoodClass)
    (hc : (resolver depth).Makes GoodClass) (hn : m.Numbered) (hm : m.Idle) (name : String) :
    m.Grown GoodClass GoodTitle ((resolveClass (resolver depth) name).run m).2 ∧
      ∀ i, ((resolveClass (resolver depth) name).run m).1 = .ok i →
        ((resolveClass (resolver depth) name).run m).2.host.node.classes.slots.get?
          (Name.normalize name) = some (.ready i) := by
  cases hslot : m.host.node.classes.slots.get? (Name.normalize name) with
  | none =>
    obtain ⟨hgathers, hready⟩ := exists_of_resolveClass hg hc hn hslot
    exact ⟨.of_gathers hgathers, hready⟩
  | some s =>
    cases s with
    | ready i =>
      rw [resolveClass, CacheOf.run_getOrLoad_ready (c := .classes) (fun _ => rfl) hslot]
      exact ⟨.refl m, fun j hj => Except.ok.inj hj ▸ hslot⟩
    | loading f => exact absurd hslot hm.classes

/-- So does a request for a title. -/
theorem grown_resolveResource (hg : (resolver depth).Gathers GoodClass)
    (ht : (resolver depth).MakesTitles base GoodTitle) (hbase : base.Further m.host) (hn : m.Numbered)
    (hm : m.Idle) (typeName title : String) :
    m.Grown GoodClass GoodTitle ((resolveResource (resolver depth) typeName title).run m).2 ∧
      ∀ i, ((resolveResource (resolver depth) typeName title).run m).1 = .ok i →
        ((resolveResource (resolver depth) typeName title).run m).2.host.node.resources.slots.get?
          (Name.normalize typeName, title) = some (.ready i) := by
  cases hslot : m.host.node.resources.slots.get? (Name.normalize typeName, title) with
  | none => exact grown_of_resolveResource hg ht hbase hn hslot
  | some s =>
    cases s with
    | ready i =>
      rw [resolveResource, CacheOf.run_getOrLoad_ready (c := .resources) (fun _ => rfl) hslot]
      exact ⟨.refl m, fun j hj => Except.ok.inj hj ▸ hslot⟩
    | loading f => exact absurd hslot hm.titles

/-- Titles tell levels as they are. -/
theorem resolver_makesTitles (base : Host) (depth : Nat) :
    (resolver depth).MakesTitles base Instance.AccurateTitle := by
  intro m m' d key host hn _ hfurther h
  have hgives : ∀ param level v, (seedsOf m.host.node.compiled key.1 key.2).get? param =
      some ⟨v, some level⟩ → m.host.node.compiled.GivesTitle key param level v :=
    fun param level v hfound => givesTitle_of_seedsOf hfound
  obtain ⟨a, ha, -, haccurate⟩ := accurate_of_resolveInstance (resolver_spares depth) hn
    (overrides_of_seeds _ _ d _ _ _ _) hgives h
  refine ⟨a, ha, ?_⟩
  rw [compiled_of_resolveInstance hfurther h]
  exact haccurate

end Node

/-- What requests do to the caches, as to the levels that are told. -/
abbrev Machine.Gained (m m' : Machine Host) : Prop :=
  m.Grown Instance.AccurateClass Instance.AccurateTitle m'

namespace Node

open Machine

variable {m : Machine Host} {depth : Nat}

theorem gained_resolveClass (hn : m.Numbered) (hm : m.Idle) (name : String) :
    m.Gained ((resolveClass (resolver depth) name).run m).2 ∧
      ∀ i, ((resolveClass (resolver depth) name).run m).1 = .ok i →
        ((resolveClass (resolver depth) name).run m).2.host.node.classes.slots.get?
          (Name.normalize name) = some (.ready i) :=
  grown_resolveClass (resolver_gathers_accurate depth) (resolver_makes depth) hn hm name

theorem gained_resolveResource (hn : m.Numbered) (hm : m.Idle) (typeName title : String) :
    m.Gained ((resolveResource (resolver depth) typeName title).run m).2 ∧
      ∀ i, ((resolveResource (resolver depth) typeName title).run m).1 = .ok i →
        ((resolveResource (resolver depth) typeName title).run m).2.host.node.resources.slots.get?
          (Name.normalize typeName, title) = some (.ready i) :=
  grown_resolveResource (resolver_gathers_accurate depth) (resolver_makesTitles m.host depth)
    (Host.course.refl m.host) hn hm typeName title

end Node

namespace Request

open Machine

variable {m : Machine Host} {depth : Nat}

/-- Changes of the caches alone lead a node on. -/
theorem since_caches (m : Machine Host) (classes : Cache String Nat)
    (resources : Cache (String × String) Nat) (functions : Cache String LoadedFunction) :
    m.Since Host.course ∅ { m with
      host := { m.host with node := { m.host.node with classes, resources, functions } } } :=
  .of_host ∅ ⟨⟨⟨rfl, rfl, rfl, rfl⟩, rfl, .refl⟩, rfl, fun _ => rfl⟩

section Grown

variable {base : Host} {GoodClass : Compiled → Instance → Prop}
  {GoodTitle : String × String → Compiled → Instance → Prop}
  (hg : (Node.resolver depth).Gathers GoodClass)

include hg

/-- Whatever a node is asked for, what its caches gain is good. -/
theorem grown_run (ht : (Node.resolver depth).MakesTitles base GoodTitle)
    (hbase : base.Further m.host) (hn : m.Numbered) (hm : m.Idle) (q : Request) :
    m.Grown GoodClass GoodTitle (q.run (Node.resolver depth) m).2 := by
  cases q with
  | resolveClass name => exact .of_gathers (hg.resolveClass name m hn)
  | resolveResource typeName title =>
    exact (Node.grown_resolveResource hg ht hbase hn hm typeName title).1
  | resolveFunction name => exact .of_gathers (hg.resolveFunction name m hn)
  | invalidateClass name =>
    exact ⟨since_caches m _ _ _, .of_lost fun _ _ hk => get?_of_forgetClasses hk,
      .of_lost fun _ _ hk => hk⟩
  | invalidateResource typeName title =>
    exact ⟨since_caches m _ _ _, .of_lost fun _ _ hk => hk,
      .of_lost fun _ _ hk => get?_of_invalidate hk⟩
  | invalidateFunction name =>
    exact ⟨since_caches m _ _ _, .of_lost fun _ _ hk => hk, .of_lost fun _ _ hk => hk⟩

theorem grown_runAll (ht : (Node.resolver depth).MakesTitles m.host GoodTitle) (hn : m.Numbered)
    (hm : m.Idle) (requests : List Request) :
    m.Grown GoodClass GoodTitle (runAll (Node.resolver depth) requests m) := by
  induction requests using List.reverseRecOn with
  | nil => exact .refl m
  | append_singleton requests q ih =>
    rw [runAll, List.foldl_append]
    exact ih.trans (grown_run hg ht ih.since.host (ih.since.after.numbered hn) (ih.idle hm) q)

end Grown

theorem gained_runAll (hn : m.Numbered) (hm : m.Idle) (requests : List Request) :
    m.Gained (runAll (Node.resolver depth) requests m) :=
  grown_runAll (Node.resolver_gathers_accurate depth) (Node.resolver_makesTitles m.host depth) hn hm
    requests

/-- After any requests, the instance of a class or a title that a node answers with tells of each level
what it gives to the parameter, and that is the value of the parameter if nothing assigns it once it has
been resolved. Of instances that have been in a cache from the beginning nothing is said. -/
theorem levels_told (hn : m.Numbered) (hm : m.Idle) (requests : List Request) :
    let m' := runAll (Node.resolver depth) requests m
    (∀ name i m'', (Node.resolveClass (Node.resolver depth) name).run m' = (.ok i, m'') →
      m.host.node.classes.slots.get? (Name.normalize name) = some (.ready i) ∨
        ∃ a, m''.instance? i = some a ∧
          a.Accurate (m.host.node.compiled.GivesClass a.name)) ∧
    ∀ typeName title i m'',
      (Node.resolveResource (Node.resolver depth) typeName title).run m' = (.ok i, m'') →
      m.host.node.resources.slots.get? (Name.normalize typeName, title) = some (.ready i) ∨
        ∃ a, m''.instance? i = some a ∧
          a.Accurate (m.host.node.compiled.GivesTitle (Name.normalize typeName, title)) := by
  intro m'
  have hpast : m.Gained m' := gained_runAll hn hm requests
  have hn' : m'.Numbered := hpast.since.after.numbered hn
  have hm' : m'.Idle := hpast.idle hm
  clear_value m'
  constructor
  · intro name i m'' hrun
    have hclass := @Node.gained_resolveClass m' depth hn' hm' name
    rw [hrun] at hclass
    obtain ⟨hlast, hready⟩ := hclass
    have hall := hpast.trans hlast
    exact hall.classes.of_ready hall.since (hready i rfl)
  · intro typeName title i m'' hrun
    have htitle := @Node.gained_resolveResource m' depth hn' hm' typeName title
    rw [hrun] at htitle
    obtain ⟨hlast, hready⟩ := htitle
    have hall := hpast.trans hlast
    exact hall.titles.of_ready hall.since (hready i rfl)

/-- The name of the instance that a request has come to, and the level and the text of a parameter. -/
def told (param : String) (q : Except Fault Nat × Machine Host) :
    Option (String × Option Nat × Option String) :=
  match q.1 with
  | .ok i => (q.2.instance? i).map fun a =>
      (a.name, a.overrides.get? param, (a.value? param).bind Value.asString?)
  | .error _ => none

theorem exists_of_told {param name text : String} {level : Nat} {q : Except Fault Nat × Machine Host}
    (h : told param q = some (name, some level, some text)) :
    ∃ i a, q = (.ok i, q.2) ∧ q.2.instance? i = some a ∧ a.name = name ∧
      a.overrides.get? param = some level ∧ a.value? param = some (.string text) := by
  rcases q with ⟨e | i, m⟩
  · cases h
  · obtain ⟨a, ha, htold⟩ := Option.map_eq_some_iff.mp h
    obtain ⟨hname, hlevel, hvalue⟩ : _ ∧ _ ∧ _ := by simpa using htold
    obtain ⟨v, hv, htext⟩ := Option.bind_eq_some_iff.mp hvalue
    cases v with
    | string s => exact ⟨i, a, rfl, ha, hname, hlevel, Option.some.inj htext ▸ hv⟩
    | _ => cases htext

/-- A node whose caches are empty. -/
theorem idle_of_empty (hclasses : m.host.node.classes.slots.isEmpty = true)
    (htitles : m.host.node.resources.slots.isEmpty = true) : m.Idle where
  classes {k f} := by
    rw [List.isEmpty_iff.mp hclasses, Table.get?_nil]
    exact nofun
  titles {k f} := by
    rw [List.isEmpty_iff.mp htitles, Table.get?_nil]
    exact nofun

set_option maxRecDepth 10000 in
/-- A parameter that has been set is told with what the level gives to it. -/
theorem levels_told_overridden :
    let q := (Node.resolveClass (Node.resolver 3) "base").run (overridden "base")
    ∃ i a, q = (.ok i, q.2) ∧ q.2.instance? i = some a ∧
      (overridden "base").host.node.compiled.GivesClass a.name "p" 0 (.string "new") ∧
      a.Tells "p" (.string "new") 0 := by
  have hset : (naming "base").setProperty "base" "p" (.string "new") 0 = .ok (overridden "base") :=
    setProperty_run (by decide +kernel)
  have hn : (overridden "base").Numbered := (writes_setProperty hset).forgets.numbered (numbered_start _)
  have hempty : (overridden "base").host.node.classes.slots.isEmpty = true := by decide +kernel
  have hm : (overridden "base").Idle := idle_of_empty hempty (by decide +kernel)
  have htold : told "p" ((Node.resolveClass (Node.resolver 3) "base").run (overridden "base")) =
      some ("base", some 0, some "new") := by decide +kernel
  have hhead : heading ((Node.resolveClass (Node.resolver 3) "base").run (overridden "base")).2
      ((Node.resolveClass (Node.resolver 3) "base").run (overridden "base")).1 =
        some ("base", ["p"], true) := by decide +kernel
  obtain ⟨i, a, hrun, ha, -, hlevel, hvalue⟩ := exists_of_told htold
  rw [show ((Node.resolveClass (Node.resolver 3) "base").run (overridden "base")).1 = .ok i from
    congrArg Prod.fst hrun] at hhead
  obtain ⟨-, q, hq, hqp⟩ := exists_of_heading ha hhead
  rcases (levels_told hn hm []).1 "base" i _ hrun with hslot | ⟨b, hb, haccurate⟩
  · rw [List.isEmpty_iff.mp hempty] at hslot
    exact absurd hslot nofun
  · obtain rfl := Option.some.inj (ha.symm.trans hb)
    obtain ⟨v, hgives, htells⟩ := haccurate "p" 0 hlevel
    have htells := htells ⟨q, hq, hqp⟩
    obtain rfl := Option.some.inj (hvalue.symm.trans htells.1.1)
    exact ⟨i, a, hrun, ha, hgives, htells⟩

/-- A class that assigns its parameter. -/
def assigningText : String :=
  "\x7b\"^\":[\"class\",\x7b\"#\":[\"name\",\"base\",\"params\"," ++
  "\x7b\"#\":[\"p\",\x7b\"#\":[\"value\",\"old\"]\x7d]\x7d,\"body\",[\x7b\"^\":[\"=\"," ++
  "\x7b\"^\":[\"$\",\"p\"]\x7d,\"x\"]\x7d]]\x7d]\x7d"

/-- A node on which that parameter has been set. -/
def assigned : Machine Host :=
  (NodeCall.setProperty "base" "p" (.string "new") 0).run
    (.start ⟨Fleet.newcomer "n0", { World.ofFiles (.empty [] 0) ⟨fun _ => 0, 0⟩ with
      shelf := ⟨[("base", .ok assigningText)], []⟩ }⟩)

set_option maxRecDepth 10000 in
/-- Once it is assigned, a parameter has a value that the level that is told does not give to it. -/
theorem level_told_of_assigned :
    let q := (Node.resolveClass (Node.resolver 3) "base").run assigned
    ∃ i a, q = (.ok i, q.2) ∧ q.2.instance? i = some a ∧ a.overrides.get? "p" = some 0 ∧
      a.value? "p" = some (.string "x") ∧
      ∀ v, assigned.host.node.compiled.GivesClass a.name "p" 0 v → a.value? "p" ≠ some v := by
  have htold : told "p" ((Node.resolveClass (Node.resolver 3) "base").run assigned) =
      some ("base", some 0, some "x") := by decide +kernel
  have hgiven : (assigned.host.node.compiled.lookup (Name.bare (overrideKey "base" "p"))).bind
      (·.1.asString?) = some "new" := by decide +kernel
  obtain ⟨i, a, hrun, ha, hname, hlevel, hvalue⟩ := exists_of_told htold
  refine ⟨i, a, hrun, ha, hlevel, hvalue, fun v hgives hv => ?_⟩
  obtain rfl := Option.some.inj (hvalue.symm.trans hv)
  rw [hname] at hgives
  rw [Compiled.lookup_eq_some_iff.mpr hgives] at hgiven
  exact absurd hgiven (by decide)

end Request

end Cascade
