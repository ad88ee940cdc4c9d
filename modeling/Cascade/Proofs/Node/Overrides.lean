import Cascade.Proofs.Eval.Parameters
import Cascade.Proofs.Node.Coherence
import Cascade.Proofs.Node.Properties
import Cascade.Proofs.Node.Requests
/-!
Overrides that are shown. An override is written under the name that its class is kept under, which is in
lower case, and read under the name that the definition has been given. So a node shows what was written
if the definition is named in lower case too, and otherwise only if the data say so anyway.
-/
namespace Cascade

namespace Node

variable {n n' : Node} {className param key : String}

/-- What overrides a parameter of a class: a fact, or else the first level that has the key made of the
names of both. -/
def overrideOf? (n : Node) (className param : String) : Option Seed :=
  let key := Name.bare (Machine.overrideKey className param)
  (n.factLike? key).map (⟨·, none⟩) <|>
    (n.compiled.lookup key).map fun found => ⟨found.1, some found.2⟩

/-- A key is set by no fact, and by none of some levels. -/
structure Unclaimed (n : Node) (key : String) (levels : Set Nat) : Prop where
  fact : n.factLike? key = none
  level {k : Nat} {l : CompiledLevel} : k ∈ levels → n.compiled.levels[k]? = some l → l.get? key = none

/-- Overrides are the same as long as the facts and the levels are. -/
theorem overrideOf?_congr (hi : n'.identity = n.identity) (hc : n'.compiled = n.compiled) :
    n'.overrideOf? = n.overrideOf? := by
  funext className param
  simp only [overrideOf?, factLike?, effectiveFacts, hi, hc]

theorem Unclaimed.overrideOf?_eq_none (h : n.Unclaimed key Set.univ)
    (hkey : Name.bare (Machine.overrideKey className param) = key) :
    n.overrideOf? className param = none := by
  simp only [overrideOf?, hkey, h.fact]
  rw [Compiled.lookup_eq_none fun j l hl => h.level (Set.mem_univ j) hl]
  rfl

theorem Unclaimed.overrideOf?_eq_some {k : Nat} {l : CompiledLevel} {v : Value}
    (h : n.Unclaimed key (Set.Iio k)) (hl : n.compiled.levels[k]? = some l)
    (hv : l.get? key = some v) (hkey : Name.bare (Machine.overrideKey className param) = key) :
    n.overrideOf? className param = some ⟨v, some k⟩ := by
  simp only [overrideOf?, hkey, h.fact]
  rw [Compiled.lookup_eq_some hl hv fun j hj l' hl' => h.level hj hl']
  rfl

end Node

namespace Host

/-- What overrides the parameters of a class does not change while the class is resolved. -/
theorem overrides (h : Host) (depth copy : Nat) (d : Definition) :
    Overrides course (Node.resolver depth) (Instance.create d none none copy) h
      (h.node.overrideOf? d.name) := by
  intro m hlead param
  have hsame : m.host.node.overrideOf? = h.node.overrideOf? :=
    Node.overrideOf?_congr hlead.onward.alike.identity hlead.onward.compiled
  rw [← hsame]
  unfold Cascade.override?
  simp only [Instance.create, Instance.name, run_bind, run_get, Node.resolver_lookupGlobal,
    Node.resolver_global?, Node.lookupGlobal, Node.global?, Node.overrideOf?, Machine.overrideKey]
  cases m.host.node.factLike? (Name.bare (d.name ++ "::" ++ param)) with
  | some v => rfl
  | none =>
    cases m.host.node.compiled.lookup (Name.bare (d.name ++ "::" ++ param)) with
    | none => rfl
    | some found => rfl

theorem further_showing (h : Host) (key : String) (i : Nat) : h.Further (h.showing key i) := by
  have hclaimed := CacheOf.aside_classes h (h.node.classes.claim () key).2
  have hloaded := further_world { h with
    node := CacheOf.classes.set h.node (h.node.classes.claim () key).2 }
    (.load .hostClass key .refl)
  have hshown := CacheOf.aside_classes (h.begun key)
    ((h.begun key).node.classes.publish h.node.classes.flights.length i)
  exact course.trans (course.trans hclaimed hloaded) hshown

end Host

namespace Loader

variable {kind : DefinitionKind} {name : String} {d : Definition}

theorem foldCase_of_findIn {text : String} (h : findIn text kind name = .ok (some d)) :
    Name.foldCase d.name = Name.normalize name := by
  unfold findIn at h
  split at h
  · exact absurd h (by simp)
  · have hfound := List.find?_some (Except.ok.inj h)
    simp only [Bool.decide_and, Bool.and_eq_true, decide_eq_true_eq] at hfound
    exact beq_iff_eq.mp hfound.2

/-- A definition that is loaded has the name that was asked for, but for case. -/
theorem foldCase_of_load {l : Loader} {w : World} (h : (l.load kind name w).1 = .ok (some d)) :
    Name.foldCase d.name = Name.normalize name := by
  cases l with
  | shelf =>
    change loadFromShelf w.shelf kind name = _ at h
    unfold loadFromShelf at h
    split at h
    · exact absurd h (by simp)
    · exact absurd h (by simp)
    · exact foldCase_of_findIn h
  | directory config compiler =>
    change (loadFromDirectory config compiler w.files kind name).1 = _ at h
    unfold loadFromDirectory readArtifact at h
    repeat' split at h
    all_goals first | exact foldCase_of_findIn h | exact absurd h (by simp)

end Loader

/-- What the declared default of a parameter has come to for the instance that `m` makes next. -/
def Machine.Defaults (m : Machine Host) (depth : Nat) (q : Param) (default : Option Result) : Prop :=
  DefaultsTo Host.course ((Node.resolver depth).within m.instances.length m.copies) m.host q default

namespace Machine

variable {m m' : Machine Host} {depth i : Nat} {name : String}

/-- A class that is not in the cache shows each parameter by its default and what overrides it. -/
theorem shown_of_resolveClass (hm : m.Numbered)
    (hnone : m.host.node.classes.slots.get? (Name.normalize name) = none)
    (h : (Node.resolveClass (Node.resolver depth) name).run m = (.ok i, m')) :
    ∃ a, m'.instance? i = some a ∧ Name.foldCase a.name = Name.normalize name ∧
      ∀ q, a.definition.Settles q → ∃ default, m.Defaults depth q default ∧
        a.Shown q.name default (m.host.node.overrideOf? a.name q.name) := by
  rw [run_resolveClass_load hnone] at h
  cases hd : m.host.library.find .hostClass (Name.normalize name) with
  | error e =>
    rw [hd] at h
    exact absurd (Prod.mk.inj h).1 (by simp)
  | ok d =>
    rw [hd] at h
    obtain ⟨hresult, hmachine⟩ := Prod.mk.inj h
    have hi : i = m.instances.length := eq_of_resolvedAs hresult
    rcases hrun : (resolveInstance (Node.resolver depth) m.instances.length).run
      { m.withInstance d none none with
        host := m.host.showing (Name.normalize name) m.instances.length } with ⟨e | ⟨⟨⟩⟩, t⟩
    · change (resolvedAs .hostClass (Name.normalize name) m.instances.length
        ((resolveInstance (Node.resolver depth) m.instances.length).run
          { m.withInstance d none none with
            host := m.host.showing (Name.normalize name) m.instances.length })).1 = _ at hresult
      rw [hrun] at hresult
      exact absurd hresult (by simp [resolvedAs, Except.map, Except.mapError])
    · have hinstances : m'.instance? = t.instance? := by
        rw [← hmachine]
        exact congrArg (fun r => r.2.instance?) hrun
      rw [hinstances, hi]
      have hfurther := m.host.further_showing (Name.normalize name) m.instances.length
      have hsame : (m.host.showing (Name.normalize name) m.instances.length).node.overrideOf? =
          m.host.node.overrideOf? :=
        Node.overrideOf?_congr hfurther.onward.alike.identity hfurther.onward.compiled
      obtain ⟨a, ha, rfl, hshown⟩ := shown_of_resolveInstance (Node.resolver_spares depth) hm
        (Host.overrides _ depth m.copies d) hrun
      refine ⟨a, ha.instance?, ?_, fun q hq => ?_⟩
      · have hload : (m.host.node.loader.load .hostClass (Name.normalize name) m.host.world).1 =
            .ok (some a.definition) := by
          change definitionOf _ _ (m.host.node.loader.load .hostClass (Name.normalize name)
            m.host.world).1 = _ at hd
          unfold definitionOf at hd
          split at hd
          next heq =>
            rw [heq, Except.ok.inj hd]
          · exact absurd hd (by simp)
          · exact absurd hd (by simp)
        rw [← Name.normalize_normalize name]
        exact Loader.foldCase_of_load hload
      · obtain ⟨default, ⟨u, hu, hdefault⟩, hshown⟩ := hshown q hq
        rw [hsame] at hshown
        exact ⟨default, ⟨u, Host.course.trans hfurther hu, hdefault⟩, hshown⟩

end Machine

/-- An instance shows a value that comes from a level. -/
def Instance.Shows (i : Instance) (name : String) (v : Value) (level : Nat) : Prop :=
  i.value? name = some v ∧ i.overrides.get? name = some level

/-- Only what overrides a parameter is shown with a level. -/
theorem Instance.Shown.shows_iff {i : Instance} {name : String} {default : Option Result}
    {seed : Option Seed} (h : i.Shown name default seed) {v : Value} {level : Nat} :
    i.Shows name v level ↔ seed = some ⟨v, some level⟩ := by
  obtain ⟨⟨p, hp, hstems⟩, hlevel⟩ := h
  have hvalue : i.value? name = p.value := by
    rw [Instance.value?, hp]
    rfl
  rw [Shows, hvalue, hlevel, hstems.value]
  constructor
  · rintro ⟨hv, hl⟩
    cases seed with
    | none => exact absurd hl (by simp)
    | some seed =>
      obtain ⟨w, k⟩ := seed
      obtain rfl : w = v := by simpa using hv
      obtain rfl : k = some level := by simpa using hl
      rfl
  · rintro rfl
    exact ⟨rfl, rfl⟩

theorem get?_forgetClasses_self {parentOf : Nat → Option String} (steps : Nat)
    (c : Cache String Nat) (name : String) :
    (forgetClasses parentOf (steps + 1) c name).slots.get? name = none := by
  have hself : (c.invalidate name).slots.get? name = none := by simp [SingleFlight.invalidate]
  unfold forgetClasses
  split
  · exact hself
  · split
    · exact hself
    · rw [← Option.not_isSome_iff_eq_none]
      intro hs
      obtain ⟨s, hs⟩ := Option.isSome_iff_exists.mp hs
      exact absurd ((get?_of_forgetClasses hs).symm.trans hself) (by simp)

namespace Node

variable {n n' : Node} {key : String} {levels : Set Nat} {k : Nat} {l : CompiledLevel}

/-- A write to one level claims a key for no other. -/
theorem Unclaimed.putLevel (h : n.Unclaimed key levels) (hk : k ∉ levels)
    (hi : n'.identity = n.identity) (hc : n'.compiled = n.compiled.putLevel k l) :
    n'.Unclaimed key levels where
  fact := by
    have hfacts : n'.effectiveFacts = n.effectiveFacts := by
      rw [effectiveFacts, hc]
      rfl
    have hfact := h.fact
    rwa [factLike?, ← hfacts, ← hi, ← factLike?] at hfact
  level {j l'} hj hl' := by
    have hne : k ≠ j := fun h => hk (h ▸ hj)
    rw [hc] at hl'
    exact h.level hj (by simpa [Compiled.putLevel, List.getElem?_set_ne hne] using hl')

theorem Unclaimed.congr (h : n.Unclaimed key levels) (hi : n'.identity = n.identity)
    (hc : n'.compiled = n.compiled) : n'.Unclaimed key levels where
  fact := by
    have hfact := h.fact
    rwa [factLike?, effectiveFacts, ← hc, ← hi, ← effectiveFacts, ← factLike?] at hfact
  level hj hl := h.level hj (hc ▸ hl)

end Node

namespace Machine

variable {m m₁ m₂ : Machine Host} {c p key : String} {v : Value} {l i depth : Nat}
  {level : CompiledLevel}

/-- What a write leaves: its level has another copy, and the class is not in the cache. -/
structure Wrote (c : String) (l : Nat) (level : CompiledLevel) (m m' : Machine Host) : Prop where
  forgets : m.Forgets m'
  identity : m'.host.node.identity = m.host.node.identity
  compiled : m'.host.node.compiled = m.host.node.compiled.putLevel l level
  gone : m'.host.node.classes.slots.get? (Name.normalize c) = none

theorem wrote_of_setProperty (hl : m.host.node.compiled.levels[l]? = some level)
    (hk : level.keys = none) (h : m.setProperty c p v l = .ok m₁) :
    ∃ level', level'.get? (overrideKey (Name.normalize c) p) = some v ∧ m.Wrote c l level' m₁ := by
  have hforgets := (writes_setProperty h).forgets
  obtain ⟨compiled, files, entropy, ha, rfl⟩ := exists_of_setProperty h
  obtain ⟨level', hset, rfl⟩ := Compiled.exists_set_of_assign hl hk ha
  obtain ⟨f, rfl, hf, -⟩ := CompiledLevel.exists_of_set hset
  refine ⟨{ level with file := some f }, hf, hforgets, rfl, rfl, ?_⟩
  rw [invalidateClass, Name.normalize_normalize]
  exact get?_forgetClasses_self _ _ _

theorem wrote_of_removeProperty {removed : Option Value}
    (h : m.removeProperty c p l = .ok (removed, m₁)) :
    ∃ level', level'.get? (overrideKey (Name.normalize c) p) = none ∧ m.Wrote c l level' m₁ := by
  have hforgets := (writes_removeProperty h).forgets
  obtain ⟨compiled, files, he, rfl⟩ := exists_of_removeProperty h
  obtain ⟨level, hl⟩ := Compiled.exists_level_of_erase he
  obtain ⟨level', herase, rfl⟩ := Compiled.exists_erase_of_erase hl he
  obtain ⟨copy, rfl, hcopy, -⟩ := CompiledLevel.exists_of_erase herase
  refine ⟨{ level with file := copy }, hcopy, hforgets, rfl, rfl, ?_⟩
  rw [invalidateClass, Name.normalize_normalize]
  exact get?_forgetClasses_self _ _ _

/-- The names under which a class is written and read are the same if and only if it has a plain name. -/
theorem bare_overrideKey_iff {name : String} (h : Name.foldCase name = Name.normalize c) :
    Name.bare (overrideKey name p) = overrideKey (Name.normalize c) p ↔ Name.Plain name :=
  Name.bare_member_iff h

/-- A class that has been written shows the value that was written. -/
theorem Wrote.shows_iff (hw : m.Wrote c l level m₁) (hm : m.Numbered)
    (hlt : l < m.host.node.compiled.levels.length)
    (hv : level.get? (overrideKey (Name.normalize c) p) = some v)
    (hfirst : m.host.node.Unclaimed (overrideKey (Name.normalize c) p) (Set.Iio l))
    (h : (Node.resolveClass (Node.resolver depth) c).run m₁ = (.ok i, m₂)) :
    ∃ a, m₂.instance? i = some a ∧ ∀ q, a.definition.Settles q → q.name = p →
      (a.Shows p v l ↔
        Name.Plain a.name ∨ m₁.host.node.overrideOf? a.name p = some ⟨v, some l⟩) := by
  obtain ⟨a, ha, hname, hshown⟩ := shown_of_resolveClass (hw.forgets.numbered hm) hw.gone h
  refine ⟨a, ha, ?_⟩
  rintro q hq rfl
  obtain ⟨default, -, hshown⟩ := hshown q hq
  rw [hshown.shows_iff, or_iff_right_of_imp]
  intro hplain
  have hlevel : m₁.host.node.compiled.levels[l]? = some level := by
    rw [hw.compiled]
    simp [Compiled.putLevel, hlt]
  exact (hfirst.putLevel (by simp) hw.identity hw.compiled).overrideOf?_eq_some hlevel hv
    ((bare_overrideKey_iff hname).mpr hplain)

/-- A class whose key has been removed from the only level that had it shows the declared default. -/
theorem Wrote.shown_default (hw : m.Wrote c l level m₁) (hm : m.Numbered)
    (hv : level.get? (overrideKey (Name.normalize c) p) = none)
    (hother : m.host.node.Unclaimed (overrideKey (Name.normalize c) p) {l}ᶜ)
    (h : (Node.resolveClass (Node.resolver depth) c).run m₁ = (.ok i, m₂)) :
    ∃ a, m₂.instance? i = some a ∧ ∀ q, a.definition.Settles q → q.name = p →
      Name.Plain a.name ∨ m₁.host.node.overrideOf? a.name p = none →
        ∃ default, m₁.Defaults depth q default ∧ a.Shown p default none := by
  obtain ⟨a, ha, hname, hshown⟩ := shown_of_resolveClass (hw.forgets.numbered hm) hw.gone h
  refine ⟨a, ha, ?_⟩
  rintro q hq rfl hplain
  obtain ⟨default, hdefault, hshown⟩ := hshown q hq
  have hothers := hother.putLevel (by simp) hw.identity hw.compiled
  have hall : m₁.host.node.Unclaimed (overrideKey (Name.normalize c) q.name) Set.univ := by
    refine ⟨hothers.fact, fun {j l'} _ hl' => ?_⟩
    by_cases hj : j = l
    · subst hj
      rw [hw.compiled, Compiled.putLevel, List.getElem?_set_self'] at hl'
      obtain ⟨-, -, rfl⟩ := Option.map_eq_some_iff.mp hl'
      exact hv
    · exact hothers.level hj hl'
  have hnone : m₁.host.node.overrideOf? a.name q.name = none :=
    hplain.elim (fun hn => hall.overrideOf?_eq_none ((bare_overrideKey_iff hname).mpr hn)) id
  rw [hnone] at hshown
  exact ⟨default, hdefault, hshown⟩

/-- A parameter that was set is shown with the value and the level it was set on if and only if its class
has a plain name, or the data have that value on that level under the name the class does have. When the
parameter is removed again and nothing else sets it, it shows its declared default. -/
theorem shows_iff_of_setProperty (hm : m.Numbered)
    (hl : m.host.node.compiled.levels[l]? = some level) (hk : level.keys = none)
    (hfirst : m.host.node.Unclaimed (overrideKey (Name.normalize c) p) (Set.Iio l))
    (hset : m.setProperty c p v l = .ok m₁) (hshow : m₁.resolve c = (.ok i, m₂)) :
    (∃ a, m₂.instance? i = some a ∧ ∀ q, a.definition.Settles q → q.name = p →
      (a.Shows p v l ↔
        Name.Plain a.name ∨ m₁.host.node.overrideOf? a.name p = some ⟨v, some l⟩)) ∧
    ∀ removed m₃ j m₄, m₂.removeProperty c p l = .ok (removed, m₃) →
      m₃.resolve c = (.ok j, m₄) →
      m.host.node.Unclaimed (overrideKey (Name.normalize c) p) {l}ᶜ →
      ∃ a, m₄.instance? j = some a ∧ ∀ q, a.definition.Settles q → q.name = p →
        Name.Plain a.name ∨ m₃.host.node.overrideOf? a.name p = none →
          ∃ default, m₃.Defaults Node.depth q default ∧ a.Shown p default none := by
  obtain ⟨level', hv, hw⟩ := wrote_of_setProperty hl hk hset
  have hlt : l < m.host.node.compiled.levels.length := (List.getElem?_eq_some_iff.mp hl).1
  refine ⟨hw.shows_iff hm hlt hv hfirst hshow, ?_⟩
  intro removed m₃ j m₄ hremove hshow' hother
  obtain ⟨level'', hnone, hw'⟩ := wrote_of_removeProperty hremove
  have hsince := Node.spares_resolveClass (Node.resolver_spares Node.depth) c m₁
  rw [← resolve, hshow] at hsince
  have hother' := (hother.putLevel (by simp) hw.identity hw.compiled).congr
    hsince.host.onward.alike.identity hsince.host.onward.compiled
  exact hw'.shown_default (hsince.after.numbered (hw.forgets.numbered hm)) hnone hother' hshow'

/-- A class with a parameter `p`, under a name of its own. -/
def parameterText (name : String) : String :=
  "\x7b\"^\":[\"class\",\x7b\"#\":[\"name\",\"" ++ name ++ "\",\"params\"," ++
  "\x7b\"#\":[\"p\",\x7b\"#\":[\"value\",\"old\"]\x7d]\x7d,\"body\",[]]\x7d]\x7d"

/-- A node without data, for which `base` is a class that calls itself by a name. -/
def naming (name : String) : Machine Host :=
  .start ⟨Fleet.newcomer "n0", { World.ofFiles (.empty [] 0) ⟨fun _ => 0, 0⟩ with
    shelf := ⟨[("base", .ok (parameterText name))], []⟩ }⟩

/-- That node after the parameter has been set. -/
def overridden (name : String) : Machine Host :=
  (NodeCall.setProperty "base" "p" (.string "new") 0).run (naming name)

/-- And after the parameter has been shown and removed again. -/
def restored (name : String) : Machine Host :=
  (NodeCall.removeProperty "base" "p" 0).run ((overridden name).resolve "base").2

/-- What the definition of an instance declares, and whether its body is empty. -/
def heading (m : Machine Host) (r : Except Fault Nat) : Option (String × List String × Bool) :=
  (r.toOption.bind m.instance?).map fun a =>
    (a.name, a.definition.params.map (·.name), a.definition.body.isEmpty)

theorem exists_of_heading {m : Machine Host} {i : Nat} {a : Instance} {name param : String}
    (ha : m.instance? i = some a) (h : heading m (.ok i) = some (name, [param], true)) :
    a.name = name ∧ ∃ q, a.definition.Settles q ∧ q.name = param := by
  simp only [heading, Except.toOption, Option.bind_some, ha, Option.map_some, Option.some.injEq,
    Prod.mk.injEq] at h
  obtain ⟨hname, hparams, hbody⟩ := h
  obtain ⟨q, hq, rfl⟩ := List.map_eq_singleton_iff.mp hparams
  refine ⟨hname, q, ⟨[], [], hq, by simp, ?_⟩, rfl⟩
  rw [List.isEmpty_iff.mp hbody]
  exact .nil

theorem setProperty_run (h : (m.setProperty c p v l).toOption.isSome = true) :
    m.setProperty c p v l = .ok ((NodeCall.setProperty c p v l).run m) := by
  cases hs : m.setProperty c p v l with
  | error e => simp [hs, Except.toOption] at h
  | ok m₁ => simp [NodeCall.run, hs, Except.toOption]

theorem removeProperty_run (h : (m.removeProperty c p l).toOption.isSome = true) :
    ∃ removed, m.removeProperty c p l = .ok (removed, (NodeCall.removeProperty c p l).run m) := by
  cases hs : m.removeProperty c p l with
  | error e => simp [hs, Except.toOption] at h
  | ok r => exact ⟨r.1, by simp [NodeCall.run, hs, Except.toOption]⟩

theorem exists_of_resolve {name param : String} {heads : Bool}
    (h : heading (m.resolve c).2 (m.resolve c).1 = some (name, [param], heads)) :
    ∃ i, m.resolve c = (.ok i, (m.resolve c).2) := by
  rcases hr : m.resolve c with ⟨e | i, m'⟩
  · simp [hr, heading, Except.toOption] at h
  · exact ⟨i, rfl⟩

theorem naming_unclaimed (name : String) (levels : Set Nat) :
    (naming name).host.node.Unclaimed (overrideKey (Name.normalize "base") "p") levels where
  fact := by
    have hkey : overrideKey (Name.normalize "base") "p" = "base::p" := by decide +kernel
    rw [hkey]
    rfl
  level {k l} _ hl := by
    have hmem := List.mem_of_getElem? hl
    obtain rfl : l = ⟨Fleet.commonLevel, "data/common.yaml", none, none⟩ :=
      List.mem_singleton.mp hmem
    rfl

set_option maxRecDepth 10000 in
/-- A class with a plain name shows what was set, and its default when that is removed again. -/
theorem plain_shown : ∃ i j a b removed default,
    (naming "base").setProperty "base" "p" (.string "new") 0 = .ok (overridden "base") ∧
    (overridden "base").resolve "base" = (.ok i, ((overridden "base").resolve "base").2) ∧
    ((overridden "base").resolve "base").2.instance? i = some a ∧ a.Shows "p" (.string "new") 0 ∧
    ((overridden "base").resolve "base").2.removeProperty "base" "p" 0 =
      .ok (removed, restored "base") ∧
    (restored "base").resolve "base" = (.ok j, ((restored "base").resolve "base").2) ∧
    ((restored "base").resolve "base").2.instance? j = some b ∧ b.Shown "p" default none := by
  have hset : (naming "base").setProperty "base" "p" (.string "new") 0 = .ok (overridden "base") :=
    setProperty_run (by decide +kernel)
  have hhead : heading ((overridden "base").resolve "base").2 ((overridden "base").resolve "base").1 =
      some ("base", ["p"], true) := by decide +kernel
  have hremoves : (((overridden "base").resolve "base").2.removeProperty
      "base" "p" 0).toOption.isSome = true := by decide +kernel
  have hhead' : heading ((restored "base").resolve "base").2 ((restored "base").resolve "base").1 =
      some ("base", ["p"], true) := by decide +kernel
  obtain ⟨i, hi⟩ := exists_of_resolve hhead
  obtain ⟨removed, hremove⟩ : ∃ removed, ((overridden "base").resolve "base").2.removeProperty
      "base" "p" 0 = .ok (removed, restored "base") := removeProperty_run hremoves
  obtain ⟨j, hj⟩ := exists_of_resolve hhead'
  have hplain : Name.Plain "base" := by decide +kernel
  obtain ⟨⟨a, ha, hshows⟩, hrest⟩ := shows_iff_of_setProperty (numbered_start _)
    (m := naming "base") rfl rfl (naming_unclaimed "base" _) hset hi
  obtain ⟨b, hb, hshown⟩ := hrest removed _ j _ hremove hj (naming_unclaimed "base" _)
  rw [show ((overridden "base").resolve "base").1 = .ok i from congrArg Prod.fst hi] at hhead
  rw [show ((restored "base").resolve "base").1 = .ok j from congrArg Prod.fst hj] at hhead'
  obtain ⟨hname, q, hq, hqp⟩ := exists_of_heading ha hhead
  obtain ⟨hname', q', hq', hqp'⟩ := exists_of_heading hb hhead'
  have hshows := (hshows q hq hqp).mpr (.inl (by rw [hname]; exact hplain))
  obtain ⟨default, -, hdefault⟩ := hshown q' hq' hqp' (.inl (by rw [hname']; exact hplain))
  exact ⟨i, j, a, b, removed, default, hset, hi, ha, hshows, hremove, hj, hb, hdefault⟩

set_option maxRecDepth 10000 in
/-- A class that is called `Base` still shows its default, although no level and no fact but the one that
was written has a key of either name. -/
theorem capital_not_shown : ∃ level i a q,
    (naming "Base").host.node.compiled.levels[0]? = some level ∧ level.keys = none ∧
    (∀ levels, (naming "Base").host.node.Unclaimed (overrideKey (Name.normalize "base") "p") levels) ∧
    (naming "Base").setProperty "base" "p" (.string "new") 0 = .ok (overridden "Base") ∧
    (overridden "Base").resolve "base" = (.ok i, ((overridden "Base").resolve "base").2) ∧
    ((overridden "Base").resolve "base").2.instance? i = some a ∧ a.name = "Base" ∧
    a.definition.Settles q ∧ q.name = "p" ∧ ¬a.Shows "p" (.string "new") 0 := by
  have hset : (naming "Base").setProperty "base" "p" (.string "new") 0 = .ok (overridden "Base") :=
    setProperty_run (by decide +kernel)
  have hhead : heading ((overridden "Base").resolve "base").2 ((overridden "Base").resolve "base").1 =
      some ("Base", ["p"], true) := by decide +kernel
  have hlevel : ((((overridden "Base").resolve "base").1.toOption.bind
      ((overridden "Base").resolve "base").2.instance?).map fun a => a.overrides.get? "p") =
        some none := by decide +kernel
  obtain ⟨i, hi⟩ := exists_of_resolve hhead
  rw [show ((overridden "Base").resolve "base").1 = .ok i from congrArg Prod.fst hi] at hhead hlevel
  cases ha : ((overridden "Base").resolve "base").2.instance? i with
  | none => simp [Except.toOption, ha] at hlevel
  | some a =>
    obtain ⟨hname, q, hq, hqp⟩ := exists_of_heading ha hhead
    refine ⟨_, i, a, q, rfl, rfl, naming_unclaimed "Base", hset, hi, ha, hname, hq, hqp, fun hshows => ?_⟩
    simp only [Except.toOption, Option.bind_some, ha, Option.map_some, Option.some.injEq] at hlevel
    exact absurd (hlevel.symm.trans hshows.2) (by simp)

end Machine
end Cascade
