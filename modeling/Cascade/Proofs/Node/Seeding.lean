import Cascade.Proofs.Node.Inheritance
import Cascade.Proofs.Node.Levels
/-!
What the titles of defined types are given. A title takes all of its parameters from one level, the first
one that leads to it. A level leads by the first of its keys that names the type, so that one which has
the title below a later key of that name only is passed over.
-/
namespace Cascade

namespace Compiled

variable {c : Compiled} {key : String × String} {level : Nat} {params : Table String Value}

/-- The value of `resources` at a level has a key that names the type, up to normalisation, and below it
parameters for the title. -/
def Lists (c : Compiled) (key : String × String) (level : Nat) (params : Table String Value) : Prop :=
  ∃ l types name titles, c.levels[level]? = some l ∧
    l.get? Node.resourcesKey = some (.hash types) ∧ (name, .hash titles) ∈ types ∧
    Name.normalize name = key.1 ∧ Table.get? titles key.2 = some (.hash params)

/-- It has them below the first key that names the type. -/
def Leads (c : Compiled) (key : String × String) (level : Nat) (params : Table String Value) : Prop :=
  ∃ l types before name titles after, c.levels[level]? = some l ∧
    l.get? Node.resourcesKey = some (.hash types) ∧
    types = before ++ (name, .hash titles) :: after ∧ (∀ e ∈ before, Name.normalize e.1 ≠ key.1) ∧
    Name.normalize name = key.1 ∧ Table.get? titles key.2 = some (.hash params)

/-- Among the levels that have a key, the first one with a result decides. -/
theorem findSome?_lookupFrom {β : Type} {name : String} {f : Value × Nat → Option β} {b : β}
    {ls : List CompiledLevel} {l : CompiledLevel} {v : Value} {k n : Nat} (hl : ls[k]? = some l)
    (hv : l.get? name = some v) (hf : f (v, n + k) = some b)
    (hbefore : ∀ j < k, ∀ l v, ls[j]? = some l → l.get? name = some v → f (v, n + j) = none) :
    (lookupFrom name n ls).findSome? f = some b := by
  induction ls generalizing k n with
  | nil => simp at hl
  | cons l' ls ih =>
    cases k with
    | zero =>
      obtain rfl : l' = l := by simpa using hl
      rw [lookupFrom, hv]
      simp only [List.findSome?_cons]
      rw [show f (v, n) = some b from hf]
    | succ k =>
      have hshift (j : Nat) : n + 1 + j = n + (j + 1) := by omega
      have hrest : (lookupFrom name (n + 1) ls).findSome? f = some b := by
        refine ih (k := k) (by simpa using hl) (by rwa [hshift]) fun j hj l v hl hv => ?_
        rw [hshift]
        exact hbefore (j + 1) (by omega) l v (by simpa using hl) hv
      unfold lookupFrom
      split
      next w hw =>
        rw [List.findSome?_cons, show f (w, n) = none from hbefore 0 (by omega) l' w rfl hw]
        exact hrest
      next => exact hrest

theorem Leads.lists (h : c.Leads key level params) : c.Lists key level params := by
  obtain ⟨l, types, before, name, titles, after, hl, htypes, rfl, -, hname, hparams⟩ := h
  exact ⟨l, _, name, titles, hl, htypes, List.mem_append_right _ List.mem_cons_self, hname, hparams⟩

end Compiled

namespace Node

variable {c : Compiled} {key : String × String} {level : Nat} {params : Table String Value}

theorem titleParams?_eq_some_iff {typeName title : String} {data : Value} :
    titleParams? typeName title data = some params ↔ ∃ types before name titles after,
      data = .hash types ∧ types = before ++ (name, .hash titles) :: after ∧
      (∀ e ∈ before, Name.normalize e.1 ≠ typeName) ∧ Name.normalize name = typeName ∧
      Table.get? titles title = some (.hash params) := by
  constructor
  · intro h
    unfold titleParams? at h
    split at h
    next types =>
      split at h
      next name titles hfound =>
        obtain ⟨hname, before, after, rfl, hbefore⟩ := List.find?_eq_some_iff_append.mp hfound
        refine ⟨_, before, name, titles, after, rfl, rfl, fun e he => ?_, beq_iff_eq.mp hname, ?_⟩
        · simpa [sameType] using hbefore e he
        · split at h
          next params' hparams => rw [hparams, Option.some.inj h]
          · cases h
      · cases h
    · cases h
  · rintro ⟨_, before, name, titles, after, rfl, rfl, hbefore, hname, hparams⟩
    have hfound : (before ++ (name, Value.hash titles) :: after).find?
        (fun e => sameType typeName e.1) = some (name, .hash titles) := by
      refine List.find?_eq_some_iff_append.mpr ⟨beq_iff_eq.mpr hname, before, after, rfl, ?_⟩
      intro e he
      simpa [sameType] using hbefore e he
    simp only [titleParams?, hfound, hparams]

theorem leads_iff : c.Leads key level params ↔ ∃ l data, c.levels[level]? = some l ∧
    l.get? resourcesKey = some data ∧ titleParams? key.1 key.2 data = some params := by
  simp only [titleParams?_eq_some_iff]
  constructor
  · rintro ⟨l, types, before, name, titles, after, hl, hdata, hrest⟩
    exact ⟨l, _, hl, hdata, types, before, name, titles, after, rfl, hrest⟩
  · rintro ⟨l, _, hl, hdata, types, before, name, titles, after, rfl, hrest⟩
    exact ⟨l, types, before, name, titles, after, hl, hdata, hrest⟩

/-- What the table that a level has for a title comes to: every entry carries the level. -/
def seedsFrom (level : Nat) (params : Table String Value) : Table String Seed :=
  params.mapValues fun v => ⟨v, some level⟩

theorem get?_seedsFrom (level : Nat) (params : Table String Value) (name : String) :
    (seedsFrom level params).get? name = (params.get? name).map fun v => ⟨v, some level⟩ :=
  Table.get?_mapValues ..

theorem seedsOf_of_leads (h : c.Leads key level params)
    (hbefore : ∀ k < level, ∀ params, ¬c.Leads key k params) :
    seedsOf c key.1 key.2 = seedsFrom level params := by
  obtain ⟨l, data, hl, hdata, hparams⟩ := leads_iff.mp h
  have hfound : (c.lookupAll resourcesKey).findSome? (fun e =>
      (titleParams? key.1 key.2 e.1).map (seedsFrom e.2)) = some (seedsFrom level params) := by
    refine Compiled.findSome?_lookupFrom hl hdata (by simp [hparams]) fun j hj l v hl hv => ?_
    have hnone : titleParams? key.1 key.2 v = none := by
      refine Option.eq_none_iff_forall_ne_some.mpr fun params hparams => ?_
      exact hbefore j hj params (leads_iff.mpr ⟨l, v, hl, hv, hparams⟩)
    simp [hnone]
  exact congrArg (·.getD []) hfound

theorem seedsOf_of_not_leads (h : ∀ level params, ¬c.Leads key level params) :
    seedsOf c key.1 key.2 = [] := by
  have hfound : (c.lookupAll resourcesKey).findSome? (fun e =>
      (titleParams? key.1 key.2 e.1).map (seedsFrom e.2)) = none := by
    refine List.findSome?_eq_none_iff.mpr fun e he => ?_
    obtain ⟨i, l, hl, -, hv⟩ := Compiled.mem_lookupFrom he
    have hnone : titleParams? key.1 key.2 e.1 = none := by
      refine Option.eq_none_iff_forall_ne_some.mpr fun params hparams => ?_
      exact h i params (leads_iff.mpr ⟨l, e.1, hl, hv, hparams⟩)
    simp [hnone]
  exact congrArg (·.getD []) hfound

/-- A level before which, and on which, nothing leads to a title gives it nothing. -/
theorem levels_of_seedsOf (h : ∀ k ≤ level, ∀ params, ¬c.Leads key k params) :
    ∀ e ∈ seedsOf c key.1 key.2, ∃ k, level < k ∧ e.2.level = some k := by
  intro e he
  by_cases hex : ∃ k params, c.Leads key k params
  · classical
    obtain ⟨params, hleads⟩ := Nat.find_spec hex
    rw [seedsOf_of_leads hleads fun j hj params h => Nat.find_min hex hj ⟨params, h⟩] at he
    obtain ⟨e', -, rfl⟩ := List.mem_map.mp he
    exact ⟨_, lt_of_not_ge fun hle => h _ hle params hleads, rfl⟩
  · rw [seedsOf_of_not_leads fun k params h => hex ⟨k, params, h⟩] at he
    exact absurd he List.not_mem_nil

end Node

/-- An instance has the seeds, and every parameter that nothing assigns later shows its own with its level,
or else what its default has come to, without a level. -/
structure Instance.Seeded (a : Instance) (seeds : Table String Seed)
    (Defaults : Param → Option Result → Prop) : Prop where
  given : a.seeds = some seeds
  named {q : Param} {v : Value} {level : Option Nat} : a.definition.Settles q →
    seeds.get? q.name = some ⟨v, level⟩ →
    a.value? q.name = some v ∧ a.overrides.get? q.name = level
  unnamed {q : Param} : a.definition.Settles q → seeds.get? q.name = none →
    (∃ default p, Defaults q default ∧ a.properties.get? q.name = some p ∧
      p.default = default.bind (·.toOption) ∧ p.value = p.default) ∧
    a.overrides.get? q.name = none

/-- What shows its parameters by seeds has them as they are. -/
theorem Instance.Seeded.of_shown {a : Instance} {seeds : Table String Seed}
    {Defaults : Param → Option Result → Prop} (hseeds : a.seeds = some seeds)
    (h : ∀ q, a.definition.Settles q → ∃ default, Defaults q default ∧
      a.Shown q.name default (seeds.get? q.name)) : a.Seeded seeds Defaults where
  given := hseeds
  named {q v level} hq hfound := by
    obtain ⟨default, -, ⟨p, hp, hstems⟩, hlevel⟩ := h q hq
    rw [hfound] at hstems hlevel
    rw [Instance.value?, hp]
    exact ⟨hstems.value, hlevel⟩
  unnamed {q} hq hnone := by
    obtain ⟨default, hdefault, ⟨p, hp, hstems⟩, hlevel⟩ := h q hq
    rw [hnone] at hstems hlevel
    exact ⟨⟨default, p, hdefault, hp, hstems.declared, hstems.value⟩, hlevel⟩

/-- Some time after `base` the default of a parameter has come to this for the next instance. -/
def Host.Defaulted (base : Host) (depth : Nat) (q : Param) (default : Option Result) : Prop :=
  ∃ t : Machine Host, base.Further t.host ∧ t.Defaults depth q default

/-- The instance of a title, by the levels that lead to it. -/
def Instance.SeededTitle (base : Host) (depth : Nat) (key : String × String) (c : Compiled)
    (a : Instance) : Prop :=
  a.Seeded (Node.seedsOf c key.1 key.2) (base.Defaulted depth)

/-- Titles have the seeds that they are given. -/
theorem Node.resolver_makesTitles_seeded (base : Host) (depth : Nat) :
    (resolver depth).MakesTitles base (Instance.SeededTitle base depth) := by
  intro m m' d key host hn hbase hfurther h
  have hseed := overrides_of_seeds Host.course (resolver depth) d (some key.2)
    (seedsOf m.host.node.compiled key.1 key.2) m.copies host
  obtain ⟨a, ha, hresolves⟩ := resolves_of_resolveInstance (resolver_spares depth) hn hseed h
  obtain ⟨a', ha', rfl, hshown⟩ := shown_of_resolveInstance (resolver_spares depth) hn hseed h
  obtain rfl := Option.some.inj (ha.instance?.symm.trans ha'.instance?)
  refine ⟨a, ha, ?_⟩
  rw [compiled_of_resolveInstance hfurther h]
  refine Instance.Seeded.of_shown hresolves.seeds fun q hq => ?_
  obtain ⟨default, hdefault, hshown⟩ := hshown q hq
  have hlater : base.Further host := Host.course.trans hbase hfurther
  exact ⟨default, ⟨{ m with host := host }, hlater, hdefault⟩, hshown⟩

namespace Request

open Machine

variable {m m' : Machine Host} {depth : Nat}

/-- After any requests, the instance of a title that a node answers with has the seeds that its levels
give. -/
theorem seeded_of_resolveResource (hn : m.Numbered) (hm : m.Idle) (requests : List Request)
    {typeName title : String} {i : Nat}
    (h : (Node.resolveResource (Node.resolver depth) typeName title).run
      (runAll (Node.resolver depth) requests m) = (.ok i, m')) :
    m.host.node.resources.slots.get? (Name.normalize typeName, title) = some (.ready i) ∨
      ∃ a, m'.instance? i = some a ∧ a.SeededTitle m.host depth (Name.normalize typeName, title)
        m.host.node.compiled := by
  have hg := Node.resolver_gathers Node.resolver_makes_any depth
  have ht := Node.resolver_makesTitles_seeded m.host depth
  have hpast := grown_runAll hg ht hn hm requests
  have hlast := Node.grown_resolveResource hg ht hpast.since.host (hpast.since.after.numbered hn)
    (hpast.idle hm) typeName title
  rw [h] at hlast
  obtain ⟨hlast, hready⟩ := hlast
  have hall := hpast.trans hlast
  exact hall.titles.of_ready hall.since (hready i rfl)

/-- The instance of a title that a node answers with after any requests, unless it has been in the cache
from the beginning, is seeded from the first level that leads to the title, with all that this level has
for it and nothing of any other, and with nothing if no level leads to it. A level that has the title
without leading to it is passed over, so that what there is comes from later levels. -/
theorem seeds_of_levels (hn : m.Numbered) (hm : m.Idle) (requests : List Request)
    (typeName title : String) {i : Nat}
    (h : (Node.resolveResource (Node.resolver depth) typeName title).run
      (runAll (Node.resolver depth) requests m) = (.ok i, m')) :
    let c := m.host.node.compiled
    let key := (Name.normalize typeName, title)
    m.host.node.resources.slots.get? key = some (.ready i) ∨ ∃ a, m'.instance? i = some a ∧
      (∀ level params, c.Leads key level params → (∀ k < level, ∀ params, ¬c.Leads key k params) →
        a.Seeded (Node.seedsFrom level params) (m.host.Defaulted depth)) ∧
      ((∀ level params, ¬c.Leads key level params) → a.Seeded [] (m.host.Defaulted depth)) ∧
      (∀ level params, c.Leads key level params → c.Lists key level params) ∧
      ∀ level params, c.Lists key level params →
        (∀ k < level, ∀ params, ¬c.Lists key k params) → (∀ params, ¬c.Leads key level params) →
        ∃ seeds, a.Seeded seeds (m.host.Defaulted depth) ∧
          ∀ e ∈ seeds, ∃ k, level < k ∧ e.2.level = some k := by
  intro c key
  rcases seeded_of_resolveResource hn hm requests h with hslot | ⟨a, ha, hseeded⟩
  · exact .inl hslot
  · refine .inr ⟨a, ha, fun level params hleads hbefore => ?_, fun hnone => ?_,
      fun level params hleads => hleads.lists, fun level params _ hbefore hnot => ?_⟩
    · exact Node.seedsOf_of_leads hleads hbefore ▸ hseeded
    · exact Node.seedsOf_of_not_leads hnone ▸ hseeded
    · refine ⟨_, hseeded, Node.levels_of_seedsOf fun k hk params hleads => ?_⟩
      rcases hk.lt_or_eq with hlt | rfl
      · exact hbefore k hlt params hleads.lists
      · exact hnot params hleads

/-- A defined type with a parameter `p`, the default of which is `old`. -/
def thingText : String :=
  "\x7b\"^\":[\"define\",\x7b\"#\":[\"name\",\"thing\",\"params\"," ++
  "\x7b\"#\":[\"p\",\x7b\"#\":[\"value\",\"old\"]\x7d]\x7d,\"body\",[]]\x7d]\x7d"

/-- A node with that type, and with these types under `resources` on its only level. -/
def furnished (types : Table String Value) : Machine Host :=
  .start ⟨{ Fleet.newcomer "n0" with
    compiled := ⟨[⟨Fleet.commonLevel, "data/common.yaml", none,
      some ⟨"data/common.yaml", "", [(Node.resourcesKey, .hash types)]⟩⟩], []⟩ },
    { World.ofFiles (.empty [] 0) ⟨fun _ => 0, 0⟩ with shelf := ⟨[("thing", .ok thingText)], []⟩ }⟩

/-- The title `a` of the type, with a new value for the parameter. -/
def things : Value := .hash [("a", .hash [("p", .string "new")])]

set_option maxRecDepth 10000 in
/-- A title has the value that its level gives, and shows the level. -/
theorem seeds_of_levels_thing :
    let m := furnished [("thing", things)]
    let q := (Node.resolveResource (Node.resolver 3) "thing" "a").run m
    ∃ i a, q = (.ok i, q.2) ∧ q.2.instance? i = some a ∧
      a.seeds = some [("p", ⟨.string "new", some 0⟩)] ∧ a.value? "p" = some (.string "new") ∧
      a.overrides.get? "p" = some 0 := by
  intro m q
  have hn : m.Numbered := numbered_start _
  have hm : m.Idle := idle_of_empty rfl rfl
  have hhead : heading q.2 q.1 = some ("thing", ["p"], true) := by decide +kernel
  rcases hrun : q with ⟨e | i, m'⟩
  · rw [hrun] at hhead
    exact absurd hhead nofun
  · rcases seeds_of_levels hn hm [] "thing" "a" hrun with hslot | ⟨a, ha, hfirst, -⟩
    · exact absurd hslot nofun
    · rw [hrun] at hhead
      obtain ⟨-, p, hp, hname⟩ := exists_of_heading ha hhead
      have hleads : m.host.node.compiled.Leads (Name.normalize "thing", "a") 0
          [("p", .string "new")] :=
        ⟨_, _, [], "thing", _, [], rfl, rfl, rfl, by simp, rfl, rfl⟩
      have hseeded := hfirst 0 _ hleads fun k hk => absurd hk (Nat.not_lt_zero k)
      have hgiven : (Node.seedsFrom 0 [("p", .string "new")]).get? p.name =
          some ⟨.string "new", some 0⟩ := by
        rw [Node.get?_seedsFrom, hname]
        rfl
      obtain ⟨hvalue, hlevel⟩ := hseeded.named hp hgiven
      rw [hname] at hvalue hlevel
      exact ⟨i, a, rfl, ha, hseeded.given, hvalue, hlevel⟩

set_option maxRecDepth 10000 in
/-- Below an earlier key of the same name, which has no titles, the title is not found. -/
theorem title_unseeded :
    let m := furnished [("Thing", .hash []), ("thing", things)]
    m.host.node.compiled.Lists (Name.normalize "thing", "a") 0 [("p", .string "new")] ∧
    ∃ a, answered ((Node.resolveResource (Node.resolver 3) "thing" "a").run m) = some a ∧
      a.seeds.map List.length = some 0 ∧ (a.value? "p").bind Value.asString? = some "old" ∧
      a.overrides.get? "p" = none :=
  ⟨⟨_, _, "thing", _, rfl, rfl, List.mem_cons_of_mem _ List.mem_cons_self, rfl, rfl⟩,
    exists_of_any (by decide +kernel)⟩

end Request

end Cascade
