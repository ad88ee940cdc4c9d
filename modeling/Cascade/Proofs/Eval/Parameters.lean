import Cascade.Proofs.Eval.Assigned
/-!
What the parameters of an instance come to. Each is resolved in its turn, from its default and from what
overrides it, and keeps that to the end unless it is assigned.
-/
namespace Cascade

open Machine

variable {η : Type} {number : Nat} {names : Set String}

/-- A property as its default and what overrides it make it. -/
structure Property.Stems (p : Property) (default : Option Result) (seed : Option Seed) : Prop where
  declared : p.default = default.bind (·.toOption)
  value : p.value = (seed.map (·.value) <|> p.default)
  failed {e : EvalError} : seed = none → default = some (.error e) → p.error = some e

namespace Property

/-- Checks only add hints. -/
theorem check_eq (p : Property) : ∃ hints, p.check = { p with hints } := by
  unfold check
  split
  · exact ⟨p.hints, rfl⟩
  · exact ⟨_, rfl⟩

theorem Stems.check {p : Property} {default : Option Result} {seed : Option Seed}
    (h : p.Stems default seed) : p.check.Stems default seed := by
  obtain ⟨hints, hp⟩ := p.check_eq
  rw [hp]
  exact ⟨h.declared, h.value, h.failed⟩

end Property

/-- The level that a parameter is overridden on. -/
def levelOf (seedOf : String → Option Seed) (name : String) : Option Nat :=
  (seedOf name).bind (·.level)

/-- What the resolution of parameters does to an instance, if `seedOf` tells what overrides them. -/
structure Instance.Resolves (names : Set String) (seedOf : String → Option Seed)
    (params : List Param) (i i' : Instance) : Prop where
  definition : i'.definition = i.definition
  seeds : i'.seeds = i.seeds
  level (name : String) : i'.overrides.get? name =
    if name ∈ params.map (·.name) then levelOf seedOf name <|> i.overrides.get? name
    else i.overrides.get? name
  property {name : String} : name ∈ names → i'.properties.get? name = i.properties.get? name

namespace Instance.Resolves

variable {seedOf : String → Option Seed} {ps ps' : List Param} {i i' i'' : Instance}

theorem of_retains (h : i.Retains names i') : i.Resolves names seedOf [] i' where
  definition := h.definition
  seeds := h.seeds
  level name := by simp [h.overrides]
  property hn := h.property hn

theorem trans (h : i.Resolves names seedOf ps i') (h' : i'.Resolves names seedOf ps' i'') :
    i.Resolves names seedOf (ps ++ ps') i'' where
  definition := h'.definition.trans h.definition
  seeds := h'.seeds.trans h.seeds
  level name := by
    rw [h'.level, h.level, List.map_append]
    by_cases hps : name ∈ ps.map (·.name)
    · by_cases hps' : name ∈ ps'.map (·.name)
      · simp only [hps, hps', List.mem_append, or_self, if_true]
        cases levelOf seedOf name <;> rfl
      · simp only [hps, hps', List.mem_append, or_false, if_true, if_false]
    · simp only [hps, List.mem_append, false_or, if_false]
  property hn := (h'.property hn).trans (h.property hn)

theorem mono {names' : Set String} (h : i.Resolves names seedOf ps i') (hsub : names' ⊆ names) :
    i.Resolves names' seedOf ps i' :=
  ⟨h.definition, h.seeds, h.level, fun hn => h.property (hsub hn)⟩

end Instance.Resolves

namespace Instance.Retains

variable {seedOf : String → Option Seed} {p : Param} {i i' : Instance}

/-- A parameter that no level overrides leaves the levels of the instance as they are. -/
theorem unmarked (h : i.Retains names i') (hlevel : levelOf seedOf p.name = none) :
    i.Resolves names seedOf [p] i' where
  definition := h.definition
  seeds := h.seeds
  level name := by
    rw [h.overrides]
    by_cases hname : name = p.name <;> simp [hname, hlevel]
  property hn := h.property hn

theorem marked (h : i.Retains names i') {level : Nat} (hlevel : levelOf seedOf p.name = some level) :
    i.Resolves names seedOf [p] { i' with overrides := i'.overrides.set p.name level } where
  definition := h.definition
  seeds := h.seeds
  level name := by
    rw [Table.get?_set, h.overrides]
    by_cases hname : p.name = name
    · subst hname
      simp [hlevel]
    · simp [hname, Ne.symm hname]
  property hn := h.property hn

end Instance.Retains

section Evaluation

variable {Q : Course η} {env : Env η} (hr : env.resolver.Spares Q) (hs : env.scope = .object number)

include hr hs

theorem retains_declaredType {p : Param} (h : Unassigned names p.type.toList) :
    Retains number names (declaredType env p) := by
  cases ht : p.type with
  | none =>
    unfold declaredType
    rw [ht]
    exact .pure _
  | some e =>
    rw [ht] at h
    intro m i hi
    rw [run_declaredType ht]
    exact retains_eval hr hs e h m i hi

theorem retains_declaredDefault {p : Param} (h : Unassigned names p.default.toList) :
    Retains number names (declaredDefault env p) := by
  unfold declaredDefault
  cases hd : p.default with
  | none => exact .pure _
  | some e =>
    rw [hd] at h
    have hsettled : Retains number names (Act.attempt (Eval.settle (eval env e))) := by
      intro m i hi
      rw [run_attempt, run_settle]
      exact retains_eval hr hs e h m i hi
    refine .bind hsettled fun o => ?_
    rcases o with (e | _) | v
    · exact .pure _
    · exact .throw _
    · exact .pure _

theorem retains_evalStatements {es : List Expr} (h : Unassigned names es) :
    Retains number names (evalStatements env es) := by
  intro m i hi
  rw [evalStatements, run_settle]
  exact retains_evalSequence hr hs es .undef h m i hi

end Evaluation

section Resolution

variable {Q : Course η} {r : Resolver η} {copy : Nat} {seedOf : String → Option Seed} {host : η}
  {i : Instance}

/-- What overrides the parameters of an instance, as long as hosts go on from one. -/
def Overrides (Q : Course η) (r : Resolver η) (i : Instance) (host : η)
    (seedOf : String → Option Seed) : Prop :=
  ∀ m : Machine η, Q.Leads host m.host → ∀ param,
    ((override? r i param).run m).1 = .ok (seedOf param)

/-- What the default of a parameter comes to at some point of a resolution that began at `host`. -/
def DefaultsTo (Q : Course η) (env : Env η) (host : η) (p : Param) (default : Option Result) : Prop :=
  ∃ m : Machine η, Q.Leads host m.host ∧ ((declaredDefault env p).run m).1 = .ok default

/-- The instance of an evaluation, and its variables. -/
def Resolver.within (r : Resolver η) (number copy : Nat) : Env η := ⟨r, .object number, copy⟩

variable (hr : r.Spares Q)

include hr

theorem leads_of_uniform {ε α : Type} [Bounded ε] {x : Program ε α} (h : Uniform .object x)
    (number copy : Nat) (m : Machine η) :
    Q.Leads m.host ((x η (r.within number copy)).run m).2.host :=
  (h.spares hr (s := ⟨.object number, copy⟩) rfl m).host

/-- The type and the default of a parameter are evaluated before anything is looked up for it. -/
theorem declared_ok {p : Param} {m m₁ m₂ : Machine η} {a : Instance} {typed : Property}
    {default : Option Result} (ha : m.Has number a) (hp : Unassigned names p.exprs)
    (htype : (declaredType (r.within number copy) p).run m = (.ok typed, m₁))
    (hdefault : (declaredDefault (r.within number copy) p).run m₁ = (.ok default, m₂)) :
    ∃ a', m₂.Has number a' ∧ a.Retains names a' ∧ Q.Leads m.host m₂.host ∧
      DefaultsTo Q (r.within number copy) m.host p default ∧ typed.value = none := by
  have hlead₁ := leads_of_uniform hr (uniform_declaredType p) number copy m
  have hlead₂ := leads_of_uniform hr (uniform_declaredDefault p) number copy m₁
  have htyped : Retains number names (declaredType (r.within number copy) p) :=
    retains_declaredType hr rfl hp.left
  have hdefaulted : Retains number names (declaredDefault (r.within number copy) p) :=
    retains_declaredDefault hr rfl hp.right
  obtain ⟨a₁, ha₁, hretains₁⟩ := htyped m a ha
  rw [htype] at hlead₁ ha₁
  obtain ⟨a₂, ha₂, hretains₂⟩ := hdefaulted m₁ a₁ ha₁
  rw [hdefault] at hlead₂ ha₂
  refine ⟨a₂, ha₂, hretains₁.trans hretains₂, Q.trans hlead₁ hlead₂,
    ⟨m₁, hlead₁, congrArg Prod.fst hdefault⟩, ?_⟩
  rcases gives_declaredType (r.within number copy) p m with he | ⟨_, he, hnone, -⟩
  · rw [htype] at he
    exact absurd he (by simp)
  · rw [htype] at he
    rw [Except.ok.inj he, hnone]

/-- One parameter: what overrides it comes first, and then its default. -/
theorem resolveParam_ok {p : Param} {m m' : Machine η} {a : Instance} {property : Property}
    (hseed : Overrides Q r i m.host seedOf) (ha : m.Has number a)
    (hp : Unassigned names p.exprs)
    (h : (resolveParam (r.within number copy) number i p).run m = (.ok property, m')) :
    ∃ a' default, m'.Has number a' ∧ a.Resolves names seedOf [p] a' ∧
      DefaultsTo Q (r.within number copy) m.host p default ∧
      property.Stems default (seedOf p.name) := by
  obtain ⟨typed, m₁, htype, h⟩ := run_bind_eq_ok.mp h
  obtain ⟨default, m₂, hdefault, h⟩ := run_bind_eq_ok.mp h
  obtain ⟨seed, m₃, hoverride, h⟩ := run_bind_eq_ok.mp h
  obtain ⟨a₂, ha₂, hretains, hlead, hdefaults, hvalue⟩ := declared_ok hr ha hp htype hdefault
  have ha₃ := (spares_override? hr i p.name m₂).has ha₂
  have hfound := hseed m₂ hlead p.name
  change (override? r i p.name).run m₂ = _ at hoverride
  rw [hoverride] at ha₃ hfound
  obtain rfl : seed = seedOf p.name := Except.ok.inj hfound
  cases hfound : seedOf p.name with
  | some seed =>
    simp only [hfound] at h
    cases hlevel : seed.level with
    | none =>
      simp only [hlevel] at h
      obtain ⟨hproperty, rfl⟩ := Prod.mk.inj h
      refine ⟨a₂, default, ha₃, hretains.unmarked (by simp [levelOf, hfound, hlevel]),
        hdefaults, ?_⟩
      rw [← Except.ok.inj hproperty]
      exact .check ⟨rfl, rfl, by simp⟩
    | some level =>
      simp only [hlevel] at h
      obtain ⟨hproperty, rfl⟩ := Prod.mk.inj h
      refine ⟨_, default, ha₃.updateInstance _,
        hretains.marked (by simp [levelOf, hfound, hlevel]), hdefaults, ?_⟩
      rw [← Except.ok.inj hproperty]
      exact .check ⟨rfl, rfl, by simp⟩
  | none =>
    have hunmarked : a.Resolves names seedOf [p] a₂ := hretains.unmarked (by simp [levelOf, hfound])
    simp only [hfound] at h
    rcases default with _ | e | v
    · obtain ⟨hproperty, rfl⟩ := Prod.mk.inj h
      refine ⟨a₂, none, ha₃, hunmarked, hdefaults, ?_⟩
      rw [← Except.ok.inj hproperty]
      exact .check ⟨rfl, hvalue, by simp⟩
    · obtain ⟨hproperty, rfl⟩ := Prod.mk.inj h
      refine ⟨a₂, some (.error e), ha₃, hunmarked, hdefaults, ?_⟩
      rw [← Except.ok.inj hproperty]
      exact .check ⟨rfl, hvalue, by simp⟩
    · obtain ⟨hproperty, rfl⟩ := Prod.mk.inj h
      refine ⟨a₂, some (.ok v), ha₃, hunmarked, hdefaults, ?_⟩
      rw [← Except.ok.inj hproperty]
      exact .check ⟨rfl, rfl, by simp⟩

theorem resolveParams_ok {ps : List Param} {m m' : Machine η} {a : Instance}
    (hseed : Overrides Q r i m.host seedOf) (ha : m.Has number a)
    (hps : Unassigned names (ps.flatMap Param.exprs)) (hnames : ∀ p ∈ ps, p.name ∉ names)
    (h : (resolveParams (r.within number copy) number i ps).run m = (.ok (), m')) :
    ∃ a', m'.Has number a' ∧ a.Resolves names seedOf ps a' ∧ Q.Leads m.host m'.host := by
  induction ps generalizing m a with
  | nil =>
    obtain ⟨-, rfl⟩ := Prod.mk.inj h
    exact ⟨a, ha, .of_retains (.refl a), Q.refl _⟩
  | cons p ps ih =>
    obtain ⟨property, m₁, hparam, h⟩ := run_bind_eq_ok.mp h
    obtain ⟨⟨⟩, m₂, hset, h⟩ := run_bind_eq_ok.mp h
    obtain ⟨-, rfl⟩ := Prod.mk.inj hset
    obtain ⟨a₁, default, ha₁, hresolves, -, -⟩ := resolveParam_ok hr hseed ha hps.left hparam
    have hlead := leads_of_uniform hr (uniform_resolveParam i p) number copy m
    change Q.Leads _ ((resolveParam (r.within number copy) number i p).run m).2.host at hlead
    rw [hparam] at hlead
    have hset : a₁.Resolves names seedOf []
        { a₁ with properties := a₁.properties.set p.name property } :=
      .of_retains (.setProperty a₁ (hnames p List.mem_cons_self) property)
    have hhost : (m₁.updateInstance number fun i =>
        { i with properties := i.properties.set p.name property }).host = m₁.host :=
      m₁.host_updateInstance _ _
    obtain ⟨a', ha', hrest, hlead'⟩ := ih
      (fun t ht => hseed t (Q.trans hlead (hhost ▸ ht))) (ha₁.updateInstance _) hps.right
      (fun p hp => hnames p (List.mem_cons_of_mem _ hp)) h
    exact ⟨a', ha', (hresolves.trans hset).trans hrest, Q.trans hlead (hhost ▸ hlead')⟩

omit hr in
theorem resolveParams_append (env : Env η) (number : Nat) (i : Instance) (ps ps' : List Param) :
    resolveParams env number i (ps ++ ps') =
      resolveParams env number i ps >>= fun _ => resolveParams env number i ps' := by
  induction ps with
  | nil => simp [resolveParams]
  | cons p ps ih => simp only [List.cons_append, resolveParams, ih, bind_assoc]

/-- The parameter of its name that counts: it is the last, and neither the defaults and types of later
parameters nor the body assign it. -/
def Definition.Settles (d : Definition) (q : Param) : Prop :=
  ∃ before after, d.params = before ++ q :: after ∧ (∀ p ∈ after, p.name ≠ q.name) ∧
    Unassigned {q.name} (after.flatMap Param.exprs ++ d.body)

/-- How an instance shows a parameter. -/
structure Instance.Shown (i : Instance) (name : String) (default : Option Result)
    (seed : Option Seed) : Prop where
  property : ∃ p, i.properties.get? name = some p ∧ p.Stems default seed
  level : i.overrides.get? name = seed.bind (·.level)

/-- A parameter is shown as its resolution has left it. -/
theorem shown_of_resolveParams {d : Definition} {q : Param} (hq : d.Settles q) {m m₁ m₂ : Machine η}
    {a : Instance} (hseed : Overrides Q r i m.host seedOf) (ha : m.Has number a)
    (hnew : a.overrides = [])
    (h : (resolveParams (r.within number copy) number i d.params).run m = (.ok (), m₁))
    (hbody : ((evalStatements (r.within number copy) d.body).run m₁).2 = m₂) :
    ∃ a' default, m₂.Has number a' ∧ a'.definition = a.definition ∧
      DefaultsTo Q (r.within number copy) m.host q default ∧
      a'.Shown q.name default (seedOf q.name) := by
  obtain ⟨before, after, hparams, hafter, hassigns⟩ := hq
  rw [hparams, resolveParams_append] at h
  obtain ⟨⟨⟩, t, hbefore, h⟩ := run_bind_eq_ok.mp h
  obtain ⟨a₁, ha₁, hresolves₁, hlead₁⟩ := resolveParams_ok hr hseed ha (.empty _)
    (fun _ _ => Set.notMem_empty _) hbefore
  obtain ⟨property, t₁, hparam, h⟩ := run_bind_eq_ok.mp h
  obtain ⟨⟨⟩, t₂, hset, h⟩ := run_bind_eq_ok.mp h
  obtain ⟨-, rfl⟩ := Prod.mk.inj hset
  have hseed₁ : Overrides Q r i t.host seedOf := fun u hu => hseed u (Q.trans hlead₁ hu)
  obtain ⟨a₂, default, ha₂, hresolves₂, ⟨u, hu, hdefault⟩, hstems⟩ := resolveParam_ok hr hseed₁
    ha₁ (.empty _) hparam
  have hlead₂ := leads_of_uniform hr (uniform_resolveParam i q) number copy t
  change Q.Leads _ ((resolveParam (r.within number copy) number i q).run t).2.host at hlead₂
  rw [hparam] at hlead₂
  have hhost : (t₁.updateInstance number fun i =>
      { i with properties := i.properties.set q.name property }).host = t₁.host :=
    t₁.host_updateInstance _ _
  obtain ⟨a₃, ha₃, hresolves₃, -⟩ := resolveParams_ok hr
    (fun u hu => hseed₁ u (Q.trans hlead₂ (hhost ▸ hu))) (ha₂.updateInstance _) hassigns.left
    (fun p hp => hafter p hp) h
  have hstatements : Retains number {q.name} (evalStatements (r.within number copy) d.body) :=
    retains_evalStatements hr rfl hassigns.right
  obtain ⟨a', ha', hretains⟩ := hstatements m₁ a₃ ha₃
  rw [hbody] at ha'
  refine ⟨a', default, ha', ?_, ⟨u, Q.trans hlead₁ hu, hdefault⟩, ⟨property, ?_, hstems⟩, ?_⟩
  · rw [hretains.definition, hresolves₃.definition]
    exact hresolves₂.definition.trans hresolves₁.definition
  · rw [hretains.property rfl, hresolves₃.property rfl]
    simp
  · have hlast : q.name ∉ after.map (·.name) := by
      intro hin
      obtain ⟨p, hp, hname⟩ := List.mem_map.mp hin
      exact hafter p hp hname
    rw [hretains.overrides, hresolves₃.level, if_neg hlast]
    change a₂.overrides.get? q.name = _
    rw [hresolves₂.level, hresolves₁.level, hnew]
    simp only [List.map_cons, List.map_nil, List.mem_singleton, if_true, Table.get?_nil, levelOf]
    split <;> cases (seedOf q.name).bind (·.level) <;> rfl

/-- What follows the parent class in the resolution of an instance. -/
theorem exists_of_instanceSteps {m m' : Machine η} {a : Instance} (ha : m.Has number a)
    (h : (instanceSteps i η (r.within number copy)).run m = (.ok (), m')) :
    ∃ m₀ m₁, Q.Leads m.host m₀.host ∧ m₀.Has number a ∧
      (resolveParams (r.within number copy) number i i.definition.params).run m₀ = (.ok (), m₁) ∧
      ((evalStatements (r.within number copy) i.definition.body).run m₁).2 = m' := by
  have hrest : ∀ {m₀}, (do
        resolveParams (r.within number copy) number i i.definition.params
        let _ ← evalStatements (r.within number copy) i.definition.body : Act η Unit).run m₀ =
          (.ok (), m') →
      ∃ m₁, (resolveParams (r.within number copy) number i i.definition.params).run m₀ =
          (.ok (), m₁) ∧
        ((evalStatements (r.within number copy) i.definition.body).run m₁).2 = m' := by
    intro m₀ h
    obtain ⟨⟨⟩, m₁, hparams, h⟩ := run_bind_eq_ok.mp h
    obtain ⟨v, m₂, hbody, h⟩ := run_bind_eq_ok.mp h
    obtain ⟨-, rfl⟩ := Prod.mk.inj h
    exact ⟨m₁, hparams, congrArg Prod.snd hbody⟩
  unfold instanceSteps at h
  cases hparent : i.parent with
  | none =>
    rw [hparent] at h
    obtain ⟨m₁, h⟩ := hrest h
    exact ⟨m, m₁, Q.refl _, ha, h⟩
  | some parent =>
    rw [hparent] at h
    obtain ⟨n, m₀, hclass, h⟩ := run_bind_eq_ok.mp h
    have hsince := hr.resolveClass parent m
    change (r.resolveClass parent).run m = _ at hclass
    rw [hclass] at hsince
    obtain ⟨m₁, h⟩ := hrest h
    exact ⟨m₀, m₁, hsince.host, hsince.has ha, h⟩

/-- What a new instance has come to when it has been resolved. -/
theorem resolves_of_resolveInstance {d : Definition} {title : Option String}
    {seeds : Option (Table String Seed)} {m m' : Machine η} (hm : m.Numbered)
    (hseed : Overrides Q r (Instance.create d title seeds m.copies) host seedOf)
    (h : (resolveInstance r m.instances.length).run
      { m.withInstance d title seeds with host := host } = (.ok (), m')) :
    ∃ a, m'.Has m.instances.length a ∧
      (Instance.create d title seeds m.copies).Resolves ∅ seedOf d.params a := by
  have hnew : Machine.Has { m.withInstance d title seeds with host := host } m.instances.length
      (Instance.create d title seeds m.copies) :=
    ⟨(Nat.lt_succ_self _).trans_eq hm.length_withInstance.symm, instance?_withInstance_self⟩
  rw [run_resolveInstance hnew.instance?] at h
  obtain ⟨m₀, m₁, hlead, ha, hparams, hbody⟩ := exists_of_instanceSteps hr hnew h
  obtain ⟨a₁, ha₁, hresolves, -⟩ := resolveParams_ok hr (fun t ht => hseed t (Q.trans hlead ht)) ha
    (.empty _) (fun _ _ => Set.notMem_empty _) hparams
  have hstatements : Retains m.instances.length ∅
      (evalStatements (r.within m.instances.length m.copies) d.body) :=
    retains_evalStatements hr rfl (.empty _)
  obtain ⟨a, ha', hretains⟩ := hstatements m₁ a₁ ha₁
  change ((evalStatements (r.within m.instances.length m.copies) d.body).run m₁).2 = m' at hbody
  rw [hbody] at ha'
  have hall := hresolves.trans (.of_retains hretains)
  rw [List.append_nil] at hall
  exact ⟨a, ha', hall⟩

/-- A new instance that resolves shows each parameter by its default and what overrides it. -/
theorem shown_of_resolveInstance {d : Definition} {title : Option String}
    {seeds : Option (Table String Seed)} {m m' : Machine η} (hm : m.Numbered)
    (hseed : Overrides Q r (Instance.create d title seeds m.copies) host seedOf)
    (h : (resolveInstance r m.instances.length).run
      { m.withInstance d title seeds with host := host } = (.ok (), m')) :
    ∃ a, m'.Has m.instances.length a ∧ a.definition = d ∧ ∀ q, d.Settles q →
      ∃ default, DefaultsTo Q (r.within m.instances.length m.copies) host q default ∧
        a.Shown q.name default (seedOf q.name) := by
  obtain ⟨a, ha', hresolves⟩ := resolves_of_resolveInstance hr hm hseed h
  have hnew : Machine.Has { m.withInstance d title seeds with host := host } m.instances.length
      (Instance.create d title seeds m.copies) :=
    ⟨(Nat.lt_succ_self _).trans_eq hm.length_withInstance.symm, instance?_withInstance_self⟩
  rw [run_resolveInstance hnew.instance?] at h
  obtain ⟨m₀, m₁, hlead, ha, hparams, hbody⟩ := exists_of_instanceSteps hr hnew h
  have hseed₀ : Overrides Q r (Instance.create d title seeds m.copies) m₀.host seedOf :=
    fun t ht => hseed t (Q.trans hlead ht)
  refine ⟨a, ha', hresolves.definition, fun q hq => ?_⟩
  obtain ⟨a', default, hhas, -, ⟨t, ht, hdefault⟩, hshown⟩ :=
    shown_of_resolveParams hr hq hseed₀ ha rfl hparams hbody
  obtain rfl := Option.some.inj (ha'.instance?.symm.trans hhas.instance?)
  exact ⟨default, ⟨t, Q.trans hlead ht, hdefault⟩, hshown⟩

end Resolution

end Cascade
