import Cascade.Proofs.Eval.Halt
import Cascade.Proofs.Node.Requests
import Cascade.Proofs.Node.Transparency
/-!
Resolution comes to an end. A class that is asked for while it is being loaded is not loaded again,
so on the way from a request to the deepest one that it leads to, every class that is loaded is a
new one. If the loader finds no more than so many classes, requests nest no deeper; and a class that
it does not find asks for nothing. It does not matter what classes need of each other, nor which of
them have failed before or have been thrown out of the cache.
-/
namespace Cascade

/-- The classes that a loader can ever find have these names, and it finds no function. -/
structure Loader.KnowsOnly (l : Loader) (names : Finset String) (w : World) : Prop where
  classes {w' : World} {name : String} {d : Definition} : l.Leads w w' →
    Name.normalize name = name → (l.load .hostClass name w').1 = .ok (some d) → name ∈ names
  functions {w' : World} {name : String} {d : Definition} : l.Leads w w' →
    (l.load .function name w').1 ≠ .ok (some d)

theorem Loader.KnowsOnly.leads {l : Loader} {names : Finset String} {w w' : World}
    (h : l.KnowsOnly names w) (hw : l.Leads w w') : l.KnowsOnly names w' where
  classes hw' := h.classes (hw.trans hw')
  functions hw' := h.functions (hw.trans hw')

/-- Whether there is no function among the artifacts. -/
def Shelf.functionless (s : Shelf) : Bool :=
  s.artifacts.all fun e =>
    match e.2.toOption.map Artifact.decode with
    | some (.ok a) => a.definitions.all fun d => d.kind ≠ .function
    | _ => true

theorem Shelf.functionless_load {s : Shelf} (h : s.functionless = true) (name : String)
    (d : Definition) : Loader.loadFromShelf s .function name ≠ .ok (some d) := by
  intro hd
  rw [Loader.loadFromShelf] at hd
  rcases hget : s.artifacts.get? (Name.foldCase name) with _ | e | text
  · rw [hget] at hd
    simp at hd
  · rw [hget] at hd
    simp at hd
  · rw [hget] at hd
    simp only [Loader.findIn] at hd
    cases ha : Artifact.decode text with
    | error e =>
      rw [ha] at hd
      simp at hd
    | ok a =>
      rw [ha] at hd
      have hin := List.mem_of_find?_eq_some (Except.ok.inj hd)
      have hkind := List.find?_some (Except.ok.inj hd)
      have hall := List.all_eq_true.mp h _ (Table.mem_of_get? hget)
      simp only [Except.toOption, Option.map_some, ha] at hall
      have hnot := List.all_eq_true.mp hall d hin
      simp_all

/-- Classes in memory have the names of their artifacts. -/
theorem Loader.knowsOnly_shelf {w : World} (h : w.shelf.functionless = true) :
    Loader.shelf.KnowsOnly w.shelf.artifacts.keys.toFinset w where
  classes {w' name d} hw hname hd := by
    rw [Loader.steady_shelf w w' hw] at hd
    rw [List.mem_toFinset]
    change loadFromShelf w.shelf .hostClass name = _ at hd
    rw [loadFromShelf, ← hname, Name.foldCase_normalize, hname] at hd
    rcases hget : w.shelf.artifacts.get? name with _ | artifact
    · rw [hget] at hd
      simp at hd
    · exact Table.mem_keys_of_get? _ hget
  functions {w' name d} hw hd := by
    rw [Loader.steady_shelf w w' hw] at hd
    exact Shelf.functionless_load h name d hd

/-- A host in which these flights load classes, as far as its loader can find them. -/
structure Host.Loading (names : Finset String) (flights : String → Option Nat) (h : Host) : Prop where
  knows : h.node.loader.KnowsOnly names h.world
  functions : ∀ k, h.node.functions.slots.get? k = none
  iff : ∀ k ∈ names, ∀ f, h.node.classes.slots.get? k = some (.loading f) ↔ flights k = some f

/-- How many classes there are that are not being loaded. -/
def unloaded (names : Finset String) (flights : String → Option Nat) : Nat :=
  (names.filter fun k => flights k = none).card

theorem unloaded_update_lt {names : Finset String} {flights : String → Option Nat} {key : String}
    (hkey : key ∈ names) (hfree : flights key = none) (f : Nat) :
    unloaded names (Function.update flights key (some f)) < unloaded names flights := by
  apply Finset.card_lt_card
  refine ⟨fun k hk => ?_, fun hsub => ?_⟩
  · obtain ⟨hmem, hnone⟩ := Finset.mem_filter.mp hk
    by_cases he : k = key
    · rw [he]
      exact Finset.mem_filter.mpr ⟨hkey, hfree⟩
    · rw [Function.update_of_ne he] at hnone
      exact Finset.mem_filter.mpr ⟨hmem, hnone⟩
  · have hin := hsub (Finset.mem_filter.mpr ⟨hkey, hfree⟩)
    simp at hin

theorem Host.load_of_find {h : Host} {kind : DefinitionKind} {key : String} {d : Definition}
    (hd : h.library.find kind key = .ok d) :
    (h.node.loader.load kind key h.world).1 = .ok (some d) := by
  change definitionOf kind key (h.node.loader.load kind key h.world).1 = .ok d at hd
  rcases hl : (h.node.loader.load kind key h.world).1 with e | _ | d'
  · rw [hl] at hd
    exact absurd hd nofun
  · rw [hl] at hd
    exact absurd hd nofun
  · rw [hl] at hd
    rw [Except.ok.inj hd]

namespace Host.Loading

variable {names : Finset String} {flights : String → Option Nat} {h h' : Host} {key : String}
  {m : Machine Host}

/-- What concerns neither classes nor functions. -/
theorem of_slots (hl : h.Loading names flights) (hloader : h'.node.loader = h.node.loader)
    (hworld : h.node.loader.Leads h.world h'.world)
    (hfunctions : h'.node.functions.slots = h.node.functions.slots)
    (hclasses : h'.node.classes.slots = h.node.classes.slots) : h'.Loading names flights where
  knows := hloader ▸ hl.knows.leads hworld
  functions k := by rw [hfunctions, hl.functions]
  iff k hk f := by rw [hclasses, hl.iff k hk f]

theorem find_class (hl : h.Loading names flights) (hkey : Name.normalize key = key) {d : Definition}
    (hd : h.library.find .hostClass key = .ok d) : key ∈ names :=
  hl.knows.classes .refl hkey (load_of_find hd)

theorem find_function (hl : h.Loading names flights) (key : String) :
    ∃ e, h.library.find .function key = .error e := by
  cases hd : h.library.find .function key with
  | error e => exact ⟨e, rfl⟩
  | ok d => exact absurd (load_of_find hd) (hl.knows.functions .refl)

theorem free_of_slot (hl : h.Loading names flights)
    (hslot : h.node.classes.slots.get? key = none) (hkey : key ∈ names) : flights key = none := by
  rw [Option.eq_none_iff_forall_ne_some]
  intro f hf
  rw [← hl.iff key hkey, hslot] at hf
  exact absurd hf nofun

/-- A class is loaded by a flight of its own. -/
theorem begun (hl : m.host.Loading names flights)
    (hslot : m.host.node.classes.slots.get? key = none) : (m.host.begun key).Loading names
      (Function.update flights key (some m.host.node.classes.flights.length)) where
  knows := hl.knows.leads (.load .hostClass key .refl)
  functions := hl.functions
  iff k hk f := by
    rw [Machine.get?_begun hslot]
    by_cases he : key = k
    · subst he
      simp
    · rw [if_neg he, Function.update_of_ne (Ne.symm he), hl.iff k hk f]

theorem showing (hl : m.host.Loading names flights)
    (hslot : m.host.node.classes.slots.get? key = none) (i : Nat) :
    (m.host.showing key i).Loading names
      (Function.update flights key (some m.host.node.classes.flights.length)) :=
  (hl.begun hslot).of_slots rfl .refl rfl (SingleFlight.slots_updateFlight _ _ _)

/-- When the load of a class has ended, everything is as it was before. -/
theorem conclude {q : Except Fault Nat × Machine Host} {f : Nat}
    (hq : q.2.host.Loading names (Function.update flights key (some f)))
    (hown : q.2.host.node.classes.slots.get? key = some (.loading f))
    (hfree : key ∈ names → flights key = none) (hne : q.1 ≠ .error .exhausted) :
    (CacheOf.classes.conclude key f q).2.host.Loading names flights where
  knows := hq.knows
  functions := hq.functions
  iff k hk g := by
    have hslots := CacheOf.get?_conclude (c := .classes) (fun _ _ => rfl) hown hne k
    refine (Eq.congr_left hslots).trans ?_
    by_cases he : key = k
    · subst he
      rw [if_pos rfl, hfree hk]
      cases q.1.toOption <;> simp
    · rw [if_neg he]
      have hother := hq.iff k hk g
      rwa [Function.update_of_ne (Ne.symm he)] at hother

end Host.Loading

/-- A key that is being loaded is answered at once. -/
theorem CacheOf.run_getOrLoad_loading {κ ν : Type} [DecidableEq κ] {c : CacheOf κ ν}
    {m : Machine Host} {key : κ} {f : Nat}
    (h : (c.get m.host.node).slots.get? key = some (.loading f)) (cycle : EvalError)
    (load : (ν → Act Host Unit) → Act Host ν) : ∃ o cache,
      (c.getOrLoad key cycle load).run m = (o, c.put m cache) ∧ o ≠ .error .exhausted ∧ cache.slots = (c.get m.host.node).slots := by
  rw [getOrLoad, run_bind, run_step]
  cases hf : (c.get m.host.node).flights.get? f with
  | none =>
    rw [SingleFlight.claim_unknown h hf]
    exact ⟨_, _, rfl, by simp, rfl⟩
  | some flight =>
    rw [SingleFlight.claim_reentrant h hf (.inl rfl)]
    cases flight.placeholder with
    | none => exact ⟨_, _, rfl, by simp, rfl⟩
    | some v => exact ⟨_, _, rfl, by simp, rfl⟩

namespace Node

variable {names : Finset String} {flights : String → Option Nat} {r : Resolver Host}
  {m : Machine Host}

/-- A request ends, and as many classes are being loaded as before. -/
def Ends (names : Finset String) (flights : String → Option Nat) {α : Type} (x : Act Host α)
    (m : Machine Host) : Prop :=
  (x.run m).1 ≠ .error .exhausted ∧ (x.run m).2.host.Loading names flights

/-- What is kept, or is being loaded, is answered at once. -/
theorem ends_of_slot {κ ν : Type} [DecidableEq κ] {c : CacheOf κ ν} {key : κ}
    {cycle : EvalError} {load : (ν → Act Host Unit) → Act Host ν} {s : Slot ν}
    (hl : m.host.Loading names flights) (hc : ∀ n, c.set n (c.get n) = n)
    (hput : ∀ cache, cache.slots = (c.get m.host.node).slots →
      (c.put m cache).host.Loading names flights)
    (hs : (c.get m.host.node).slots.get? key = some s) :
    Ends names flights (c.getOrLoad key cycle load) m := by
  cases s with
  | ready v =>
    rw [Ends, CacheOf.run_getOrLoad_ready hc hs]
    exact ⟨nofun, hl⟩
  | loading f =>
    obtain ⟨o, cache, hrun, ho, hcache⟩ := CacheOf.run_getOrLoad_loading hs cycle load
    rw [Ends, hrun]
    exact ⟨ho, hput cache hcache⟩

/-- A class is loaded to the end if, while it is being loaded as well, all requests end. -/
theorem ends_resolveClass (hspares : r.Spares Host.course)
    (hr : ∀ key ∈ names, flights key = none → ∀ f,
      r.Answers (Host.Loading names (Function.update flights key (some f))))
    (hl : m.host.Loading names flights) (name : String) :
    Ends names flights (resolveClass r name) m := by
  cases hslot : m.host.node.classes.slots.get? (Name.normalize name) with
  | some s =>
    exact ends_of_slot (c := .classes) hl (fun _ => rfl)
      (fun cache hcache => hl.of_slots rfl .refl rfl hcache) hslot
  | none =>
    have hfree := hl.free_of_slot hslot
    rw [Ends, run_resolveClass_load hslot]
    cases hd : m.host.library.find .hostClass (Name.normalize name) with
    | error e =>
      have hown := Machine.get?_begun hslot (Name.normalize name)
      rw [if_pos rfl] at hown
      exact ⟨nofun, Host.Loading.conclude (hl.begun hslot) hown hfree nofun⟩
    | ok d =>
      have hkey := hl.find_class (Name.normalize_normalize name) hd
      obtain ⟨hne, hq⟩ := (hr _ hkey (hfree hkey) _).resolveNew hspares d none none
        (hl.showing hslot m.instances.length)
      have hown := (hq.iff _ hkey _).mpr (Function.update_self ..)
      exact ⟨resolvedAs_ne.mpr hne,
        Host.Loading.conclude (q := resolvedAs _ _ _ _) hq hown hfree (resolvedAs_ne.mpr hne)⟩

theorem functionOf_error (name : String) (e : EvalError) :
    functionOf name (.error e) = .ok none ∨ ∃ e', functionOf name (.error e) = .error (.error e') := by
  cases e with
  | notFound => exact .inl rfl
  | _ => exact .inr ⟨_, rfl⟩

/-- No function is found, and none is kept. -/
theorem ends_resolveFunction (hl : m.host.Loading names flights) (depth : Nat) (name : String) :
    let q := ((resolver (depth + 1)).resolveFunction name).run m
    (q.1 = .ok none ∨ ∃ e, q.1 = .error (.error e)) ∧ q.2.host.Loading names flights := by
  let key := Name.normalize name
  let claimed := CacheOf.functions.put m (m.host.node.functions.claim () key).2
  obtain ⟨e, he⟩ := hl.find_function key
  have hclaimed : claimed.host.library.find .function key = .error e := he
  obtain ⟨world, hworld, o, hload, hmap⟩ := run_loadFunction key claimed
  rw [hclaimed] at hmap
  have hrun : (CacheOf.functions.getOrLoad key (.cycle .function key) fun _ =>
      loadFunction key).run m = CacheOf.functions.conclude key m.host.node.functions.flights.length
        (o, { claimed with host := { claimed.host with world } }) :=
    (CacheOf.run_getOrLoad_load (hl.functions key)).trans
      (congrArg (CacheOf.functions.conclude key _) hload)
  obtain rfl : o = .error (.error e) := by
    cases o with
    | error e' => exact congrArg Except.error (Except.error.inj hmap)
    | ok v => exact absurd hmap nofun
  have hslots : ∀ k, ((m.host.node.functions.claim () key).2).slots.get? k =
      if key = k then some (.loading m.host.node.functions.flights.length) else none := by
    intro k
    rw [SingleFlight.get?_claim (hl.functions key), hl.functions k]
  have hfinal := CacheOf.get?_conclude (c := .functions)
    (r := (.error (.error e), { claimed with host := { claimed.host with world } }))
    (fun _ _ => rfl) ((hslots key).trans (if_pos rfl)) nofun
  simp only
  rw [run_resolveFunction hrun hmap]
  refine ⟨functionOf_error key e, hl.knows.leads hworld, fun k => (hfinal k).trans ?_, hl.iff⟩
  split
  · rfl
  next hk => exact (hslots k).trans (if_neg hk)

/-- Requests that may nest deeper than there are classes left to load come to an end. -/
theorem resolver_answers (depth : Nat) (flights : String → Option Nat)
    (hdepth : unloaded names flights < depth) :
    (resolver depth).Answers (Host.Loading names flights) := by
  induction depth generalizing flights with
  | zero => exact absurd hdepth (Nat.not_lt_zero _)
  | succ depth ih =>
    exact
      { resolveClass := fun name hl => by
          refine ends_resolveClass (resolver_spares depth) (fun key hkey hfree f => ?_) hl name
          have hfewer := unloaded_update_lt hkey hfree f
          exact ih _ (by omega)
        resolveFunction := fun name hl => ends_resolveFunction hl depth name
        registerSource := fun name level hl => hl.of_slots rfl .refl rfl rfl }

/-- A title is loaded to the end if all requests end. -/
theorem ends_resolveResource (hspares : r.Spares Host.course)
    (hr : r.Answers (Host.Loading names flights)) (hl : m.host.Loading names flights)
    (typeName title : String) : Ends names flights (resolveResource r typeName title) m := by
  let key := (Name.normalize typeName, title)
  cases hslot : m.host.node.resources.slots.get? key with
  | some s =>
    exact ends_of_slot (c := .resources) hl (fun _ => rfl)
      (fun cache _ => hl.of_slots rfl .refl rfl rfl) hslot
  | none =>
    have hload : m.host.node.loader.Leads m.host.world
        (m.host.node.loader.load .definedType key.1 m.host.world).2 := .load _ _ .refl
    have hrun := run_resolveResource_load (r := r) hslot
    simp only at hrun
    rw [Ends, hrun]
    cases hd : m.host.library.find .definedType key.1 with
    | error e => exact ⟨by simp [CacheOf.conclude], hl.of_slots rfl hload rfl rfl⟩
    | ok d =>
      have hl' : (m.host.showingTitle key m.instances.length).Loading names flights :=
        hl.of_slots rfl hload rfl rfl
      obtain ⟨hne, hq⟩ := hr.resolveNew hspares d (some title)
        (some (seedsOf m.host.node.compiled key.1 title)) hl'
      exact ⟨resolvedAs_ne.mpr hne, hq.of_slots rfl .refl rfl rfl⟩

end Node

/-- A host that is loading nothing has no more classes to load than its loader can find. -/
theorem unloaded_none (names : Finset String) : unloaded names (fun _ => none) = names.card := by
  rw [unloaded, Finset.filter_true_of_mem fun _ _ => rfl]

theorem Host.loading_of_create {files : Files} {certname : String} {facts : Facts}
    {hierarchy : Hierarchy} {loader : Loader} {node : Node} {world : World} {names : Finset String}
    (h : Node.create files certname facts hierarchy loader = .ok node)
    (hl : loader.KnowsOnly names world) : Host.Loading names (fun _ => none) ⟨node, world⟩ := by
  obtain ⟨compiled, -, rfl⟩ := Node.exists_of_create h
  exact ⟨hl, fun _ => rfl, fun _ _ _ => by simp [SingleFlight.empty]⟩

/-- Loads that are under way and are forgotten are not under way. -/
theorem Host.Loading.forget {names : Finset String} {h : Host} {node : Node}
    (hl : h.Loading names fun _ => none) (hloader : node.loader = h.node.loader)
    (hclasses : ∀ k s, node.classes.slots.get? k = some s → h.node.classes.slots.get? k = some s)
    (hfunctions : ∀ k s, node.functions.slots.get? k = some s →
      h.node.functions.slots.get? k = some s) :
    Host.Loading names (fun _ => none) { h with node := node } where
  knows := hloader ▸ hl.knows
  functions k := by
    rw [Option.eq_none_iff_forall_ne_some]
    intro s hs
    exact Option.some_ne_none s ((hfunctions k s hs).symm.trans (hl.functions k))
  iff k hk f := ⟨fun hs => (hl.iff k hk f).mp (hclasses k _ hs), nofun⟩

namespace Request

variable {names : Finset String} {m : Machine Host} {depth : Nat}

/-- A request to a host that is loading nothing ends, and leaves it loading nothing. -/
theorem run_ends_of_loading (hl : m.host.Loading names fun _ => none) (hdepth : names.card < depth)
    (q : Request) : (q.run (Node.resolver depth) m).1 ≠ .error .exhausted ∧
      (q.run (Node.resolver depth) m).2.host.Loading names fun _ => none := by
  have hanswers := Node.resolver_answers depth (fun _ => none) ((unloaded_none names).trans_lt hdepth)
  cases q with
  | resolveClass name =>
    obtain ⟨hne, hl'⟩ := hanswers.resolveClass name hl
    exact ⟨Fault.map_ne_exhausted.mpr hne, hl'⟩
  | resolveResource typeName title =>
    obtain ⟨hne, hl'⟩ := Node.ends_resolveResource (Node.resolver_spares depth) hanswers hl
      typeName title
    exact ⟨Fault.map_ne_exhausted.mpr hne, hl'⟩
  | resolveFunction name =>
    obtain ⟨hresult, hl'⟩ := hanswers.resolveFunction name hl
    refine ⟨Fault.map_ne_exhausted.mpr ?_, hl'⟩
    rcases hresult with hnone | ⟨e, he⟩
    · exact hnone ▸ nofun
    · exact he ▸ nofun
  | invalidateClass name =>
    exact ⟨nofun, hl.forget rfl (fun _ _ hk => get?_of_forgetClasses hk) fun _ _ hk => hk⟩
  | invalidateResource typeName title =>
    exact ⟨nofun, hl.forget rfl (fun _ _ hk => hk) fun _ _ hk => hk⟩
  | invalidateFunction name =>
    exact ⟨nofun, hl.forget rfl (fun _ _ hk => hk) fun _ _ hk => get?_of_invalidate hk⟩

theorem loading_runAll (hl : m.host.Loading names fun _ => none) (hdepth : names.card < depth)
    (requests : List Request) :
    (runAll (Node.resolver depth) requests m).host.Loading names fun _ => none := by
  induction requests generalizing m with
  | nil => exact hl
  | cons q requests ih => exact ih (run_ends_of_loading hl hdepth q).2

/-- With more depth the same happens. -/
theorem runAll_deeper (hl : m.host.Loading names fun _ => none) (hdepth : names.card < depth)
    {deeper : Nat} (hdeeper : depth ≤ deeper) (requests : List Request) :
    runAll (Node.resolver deeper) requests m = runAll (Node.resolver depth) requests m := by
  induction requests generalizing m with
  | nil => rfl
  | cons q requests ih =>
    obtain ⟨hne, hl'⟩ := run_ends_of_loading hl hdepth q
    have hq := run_extends (Node.resolver_extends hdeeper) hne
    calc runAll (Node.resolver deeper) (q :: requests) m
      _ = runAll (Node.resolver deeper) requests (q.run (Node.resolver deeper) m).2 := rfl
      _ = runAll (Node.resolver deeper) requests (q.run (Node.resolver depth) m).2 := by rw [hq]
      _ = runAll (Node.resolver depth) requests (q.run (Node.resolver depth) m).2 := ih hl'

/-- Resolution terminates. If all classes that a loader can find are among so many names, and it finds
no functions, every request to a node ends, whatever it has been asked for before: no more requests
nest in it than there are names, so with more depth than that the depth does not matter. -/
theorem run_ends {files : Files} {certname : String} {facts : Facts} {hierarchy : Hierarchy}
    {loader : Loader} {node : Node} {world : World}
    (hnode : Node.create files certname facts hierarchy loader = .ok node)
    (hknows : loader.KnowsOnly names world) (hdepth : names.card < depth)
    (requests : List Request) (q : Request) :
    let m := runAll (Node.resolver depth) requests (.start ⟨node, world⟩)
    (q.run (Node.resolver depth) m).1 ≠ .error .exhausted ∧
      ∀ deeper ≥ depth, runAll (Node.resolver deeper) requests (.start ⟨node, world⟩) = m ∧
        q.run (Node.resolver deeper) m = q.run (Node.resolver depth) m := by
  intro m
  have hstart := Host.loading_of_create hnode hknows
  have hends := (run_ends_of_loading (loading_runAll (m := .start ⟨node, world⟩) hstart hdepth
    requests) hdepth q).1
  exact ⟨hends, fun deeper hdeeper =>
    ⟨runAll_deeper hstart hdepth hdeeper requests,
      run_extends (Node.resolver_extends hdeeper) hends⟩⟩

/-- The class `own` inherits itself. -/
def ownText : String :=
  "\x7b\"^\":[\"class\",\x7b\"#\":[\"name\",\"own\",\"parent\",\"own\"]\x7d]\x7d"

/-- The class `probe` keeps in `a` whether there is a class `failing`. -/
def probeText : String :=
  "\x7b\"^\":[\"class\",\x7b\"#\":[\"name\",\"probe\",\"body\",\x7b\"^\":" ++
  "[\"=\",\x7b\"^\":[\"$\",\"a\"]\x7d,\x7b\"^\":[\"call\"," ++
  "\x7b\"#\":[\"functor\",\"defined\",\"args\",[\"failing\"]]\x7d]\x7d]\x7d]\x7d]\x7d"

/-- The class `failing` includes `probe` and `own`, and then fails. -/
def failingText : String :=
  "\x7b\"^\":[\"class\",\x7b\"#\":[\"name\",\"failing\",\"body\",[\x7b\"^\":[\"call\"," ++
  "\x7b\"#\":[\"functor\",\"include\",\"args\",[\"probe\",\"own\"]]\x7d]\x7d," ++
  "\x7b\"^\":[\"call\",\x7b\"#\":[\"functor\",\"fail\"]\x7d]\x7d]]\x7d]\x7d"

def entangled : Shelf :=
  ⟨[("own", .ok ownText), ("probe", .ok probeText), ("failing", .ok failingText)], []⟩

def entangledWorld : World :=
  { World.ofFiles (.empty [] 0) ⟨fun _ => 0, 0⟩ with shelf := entangled }

/-- What an instance keeps in `a`, if it is true or false. -/
def truthOfA : Except Fault Reply → Option Bool
  | .ok (.shown (some i)) =>
    match i.value? "a" with
    | some (.bool b) => some b
    | _ => none
  | _ => none

/-- A class fails, and what it left in the cache is thrown out, so that it will be asked for again. -/
def failingFirst : List Request :=
  [.resolveClass "failing", .invalidateClass "probe", .invalidateClass "own"]

set_option maxRecDepth 10000 in
theorem entangled_run_ends :
    let start : Machine Host := .start ⟨Fleet.newcomer "n0", entangledWorld⟩
    let m := runAll (Node.resolver 4) failingFirst start
    let q := resolveClass "probe"
    Node.create (.empty [] 0) "n0" [] ⟨5, "data", none, [Fleet.commonLevel]⟩ .shelf =
        .ok (Fleet.newcomer "n0") ∧
      Loader.shelf.KnowsOnly entangled.artifacts.keys.toFinset entangledWorld ∧
      entangled.artifacts.keys.toFinset.card < 4 ∧
      ((q.run (Node.resolver 4) m).1 ≠ .error .exhausted ∧
        ∀ deeper ≥ 4, runAll (Node.resolver deeper) failingFirst start = m ∧
          q.run (Node.resolver deeper) m = q.run (Node.resolver 4) m) ∧
      truthOfA (q.run (Node.resolver 4) m).1 = some false := by
  intro start m q
  have hnode : Node.create (.empty [] 0) "n0" [] ⟨5, "data", none, [Fleet.commonLevel]⟩ .shelf =
      .ok (Fleet.newcomer "n0") := rfl
  have hknows : Loader.shelf.KnowsOnly entangled.artifacts.keys.toFinset entangledWorld :=
    Loader.knowsOnly_shelf (w := entangledWorld) (by decide +kernel)
  have hcard : entangled.artifacts.keys.toFinset.card < 4 := by decide
  exact ⟨hnode, hknows, hcard, run_ends hnode hknows hcard failingFirst q, by decide +kernel⟩

end Request

end Cascade
