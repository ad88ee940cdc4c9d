import Cascade.Node.Resolve
import Cascade.Proofs.Eval.Library
import Cascade.Proofs.Files
/-!
What a node has in its caches changes no answer, as long as every class in them is what it would be
if it were resolved anew. Such a node keeps to this through all that it resolves, and it never comes
upon a class that is still being resolved: that class would need itself, and so have no answer at
all.
-/
namespace Cascade

namespace Loader

/-- The worlds that loads lead to. -/
inductive Leads (l : Loader) (w : World) : World → Prop
  | refl : Leads l w w
  | load {w' : World} (kind : DefinitionKind) (name : String) :
      Leads l w w' → Leads l w (l.load kind name w').2
  | serial {w' : World} : Leads l w w' → Leads l w w'.serial.2

theorem Leads.trans {l : Loader} {w w' w'' : World} (h : l.Leads w w') (h' : l.Leads w' w'') :
    l.Leads w w'' := by
  induction h' with
  | refl => exact h
  | load kind name _ ih => exact .load kind name ih
  | serial _ ih => exact .serial ih

/-- Loads change nothing about later ones. -/
def Steady (l : Loader) (w : World) : Prop :=
  ∀ w', l.Leads w w' → ∀ kind name, (l.load kind name w').1 = (l.load kind name w).1

theorem Steady.leads {l : Loader} {w w' : World} (h : l.Steady w) (hw : l.Leads w w') :
    l.Steady w' :=
  fun w'' hw' kind name => (h w'' (hw.trans hw') kind name).trans (h w' hw kind name).symm

theorem steady_shelf (w : World) : shelf.Steady w := by
  have hkept : ∀ w', shelf.Leads w w' → w'.shelf.artifacts = w.shelf.artifacts := by
    intro w' hw
    induction hw with
    | refl => rfl
    | load kind name _ ih => exact ih
    | serial _ ih => exact ih
  intro w' hw kind name
  simp only [load, loadFromShelf, hkept w' hw]

end Loader

/-- All that resolutions for a node depend on. -/
def Host.library (h : Host) : Library where
  load kind name := (h.node.loader.load kind name h.world).1
  global? := h.node.global?
  lookupGlobal := h.node.lookupGlobal

/-- Two nodes of one certname, with the same facts, hierarchy and loader. -/
structure Node.Alike (n n' : Node) : Prop where
  identity : n'.identity = n.identity
  facts : n'.facts = n.facts
  hierarchy : n'.hierarchy = n.hierarchy
  loader : n'.loader = n.loader

theorem Node.Alike.refl (n : Node) : n.Alike n := ⟨rfl, rfl, rfl, rfl⟩

theorem Node.Alike.trans {n n' n'' : Node} (h : n.Alike n') (h' : n'.Alike n'') : n.Alike n'' :=
  ⟨h'.identity.trans h.identity, h'.facts.trans h.facts, h'.hierarchy.trans h.hierarchy,
    h'.loader.trans h.loader⟩

theorem Node.exists_of_create {files : Files} {certname : String} {facts : Facts}
    {hierarchy : Hierarchy} {loader : Loader} {node : Node}
    (h : Node.create files certname facts hierarchy loader = .ok node) :
    ∃ compiled, Compiled.compile files hierarchy facts (Identity.ofCertname certname).facts =
        .ok compiled ∧
      node = { identity := Identity.ofCertname certname, facts, hierarchy, compiled, loader,
               classListKey := standardClassListKey, classes := .empty, resources := .empty,
               functions := .empty, sources := [] } := by
  obtain ⟨compiled, hc, h⟩ := bind_eq_ok.mp h
  exact ⟨compiled, hc, (Except.ok.inj h).symm⟩

/-- A host that has gone on from another has only loaded and kept more. -/
structure Host.Onward (h h' : Host) : Prop where
  alike : h.node.Alike h'.node
  compiled : h'.node.compiled = h.node.compiled
  world : h.node.loader.Leads h.world h'.world

theorem Host.Onward.refl (h : Host) : h.Onward h := ⟨.refl _, rfl, .refl⟩

theorem Host.Onward.trans {h h' h'' : Host} (ho : h.Onward h') (ho' : h'.Onward h'') :
    h.Onward h'' :=
  ⟨ho.alike.trans ho'.alike, ho'.compiled.trans ho.compiled,
    ho.world.trans (ho.alike.loader ▸ ho'.world)⟩

/-- Every class in the caches is what it would be if it were resolved anew, and those that are being
resolved are too deep for an answer at this depth. -/
structure Machine.Coherent (L : Library) (depth : Nat) (m : Machine Host) : Prop where
  steady : m.host.node.loader.Steady m.host.world
  library : m.host.library = L
  key : ∀ k s, m.host.node.classes.slots.get? k = some s → Name.normalize k = k
  ready : ∀ k i, m.host.node.classes.slots.get? k = some (.ready i) →
    i < m.instances.length ∧ ∃ n, L.answer n k = .ok (m.view? i)
  loading : ∀ k f, m.host.node.classes.slots.get? k = some (.loading f) →
    L.answer depth k = .error .exhausted
  function : ∀ k f, m.host.node.functions.slots.get? k = some f →
    ∃ v, f = .ready v ∧ L.find .function k = .ok v.definition

namespace Machine

variable {L : Library} {depth : Nat} {m m' : Machine Host}

/-- A class is being resolved before and after, or neither before nor after, and what has been
resolved in between has a new instance. No title of a defined type is touched. -/
structure KeepsCache (m m' : Machine Host) : Prop where
  onward : m.host.Onward m'.host
  resources : m'.host.node.resources = m.host.node.resources
  loading : ∀ k f, m'.host.node.classes.slots.get? k = some (.loading f) ↔
    m.host.node.classes.slots.get? k = some (.loading f)
  ready : ∀ k i, m'.host.node.classes.slots.get? k = some (.ready i) →
    m.host.node.classes.slots.get? k = some (.ready i) ∨ m.instances.length ≤ i

/-- What happens to anything but classes and titles. -/
theorem KeepsCache.of_classes (ho : m.host.Onward m'.host)
    (hresources : m'.host.node.resources = m.host.node.resources)
    (hclasses : m'.host.node.classes = m.host.node.classes) : m.KeepsCache m' where
  onward := ho
  resources := hresources
  loading k f := by rw [hclasses]
  ready k i hk := .inl (hclasses ▸ hk)

theorem KeepsCache.refl (m : Machine Host) : m.KeepsCache m := .of_classes (.refl _) rfl rfl

theorem Coherent.mono {depth' : Nat} (h : m.Coherent L depth) (hd : depth' ≤ depth) :
    m.Coherent L depth' :=
  { h with
    loading := fun k f hk => by
      by_contra hne
      exact hne ((Library.answer_mono hd hne).symm.trans (h.loading k f hk)) }

/-- Nothing is left in loading that was not there before. -/
theorem Coherent.of_keepsCache {depth' : Nat} (h : m.Coherent L depth) (h' : m'.Coherent L depth')
    (hk : m.KeepsCache m') : m'.Coherent L depth :=
  { h' with loading := fun k f hf => h.loading k f ((hk.loading k f).mp hf) }

/-- Only instances that no class in the cache has may change. -/
def guard (L : Library) (depth : Nat) : Guard Host where
  Holds := Coherent L depth
  Open h i := ∀ k, h.node.classes.slots.get? k ≠ some (.ready i)
  Passed := KeepsCache
  holds_of_host {m m'} h hhost hlen hinst := by
    refine ⟨hhost ▸ h.steady, hhost ▸ h.library, hhost ▸ h.key, fun k i hk => ?_,
      hhost ▸ h.loading, hhost ▸ h.function⟩
    rw [hhost] at hk
    have hi : m'.instance? i = m.instance? i := hinst i fun ho => ho k hk
    obtain ⟨hlt, hanswer⟩ := h.ready k i hk
    refine ⟨hlt.trans_le hlen, ?_⟩
    rw [view?, hi]
    exact hanswer
  passed_of_host hhost := .of_classes (hhost ▸ .refl _) (by rw [hhost]) (by rw [hhost])
  passed_trans {m m' m''} hle h h' := by
    refine ⟨h.onward.trans h'.onward, h'.resources.trans h.resources,
      fun k f => (h'.loading k f).trans (h.loading k f), fun k i hk => ?_⟩
    rcases h'.ready k i hk with hk | hi
    · exact h.ready k i hk
    · exact .inr (hle.trans hi)
  open_of_passed {m m' i} h hi ho k hk := by
    rcases h.ready k i hk with hk | hle
    · exact ho k hk
    · exact hi.not_ge hle

end Machine

/-- A node and its caches as they were, but for one cache. -/
def CacheOf.put {κ ν : Type} (c : CacheOf κ ν) (m : Machine Host) (cache : Cache κ ν) :
    Machine Host :=
  { m with host := { m.host with node := c.set m.host.node cache } }

namespace CacheOf

variable {κ ν : Type} [DecidableEq κ] {c : CacheOf κ ν} {m : Machine Host} {key : κ}
  {cycle : EvalError} {load : (ν → Act Host Unit) → Act Host ν}

omit [DecidableEq κ] in
theorem run_step {α : Type} (change : Cache κ ν → α × Cache κ ν) (m : Machine Host) :
    (c.step change).run m =
      (.ok (change (c.get m.host.node)).1, c.put m (change (c.get m.host.node)).2) := rfl

theorem run_getOrLoad_ready {v : ν} (hc : ∀ n, c.set n (c.get n) = n)
    (h : (c.get m.host.node).slots.get? key = some (.ready v)) :
    (c.getOrLoad key cycle load).run m = (.ok v, m) := by
  have hput : c.put m (c.get m.host.node) = m := by
    rw [put, hc]
  rw [getOrLoad, run_bind, run_step]
  simp only [SingleFlight.claim_ready h, hput]
  rfl

/-- How a load ends: its slot is settled with what has come of it. -/
def conclude (c : CacheOf κ ν) (key : κ) (f : Nat) (r : Except Fault ν × Machine Host) :
    Except Fault ν × Machine Host :=
  (r.1, c.put r.2 (match r.1 with
    | .ok v => (c.get r.2.host.node).settle key f (.ok v)
    | .error (.error e) => (c.get r.2.host.node).settle key f (.error e)
    | .error .exhausted => ((c.get r.2.host.node).detach key f).giveUp f))

/-- A key that is not there is loaded. -/
theorem run_getOrLoad_load (h : (c.get m.host.node).slots.get? key = none) :
    (c.getOrLoad key cycle load).run m = c.conclude key (c.get m.host.node).flights.length
      ((load fun v => c.update fun cache =>
        cache.publish (c.get m.host.node).flights.length v).run
          (c.put m ((c.get m.host.node).claim () key).2)) := by
  have hclaim : ((c.get m.host.node).claim () key).1 =
      .load (c.get m.host.node).flights.length := by
    rw [SingleFlight.claim_load h]
  rw [getOrLoad, run_bind, run_step]
  simp only [hclaim]
  rw [run_bind, run_attempt]
  generalize (load _).run _ = r
  rcases r with ⟨(e | _) | v, m'⟩ <;> rfl

end CacheOf

namespace Host

/-- A host after it has loaded a definition. -/
def loaded (h : Host) (kind : DefinitionKind) (name : String) : Host :=
  { h with world := (h.node.loader.load kind name h.world).2 }

/-- Loads change nothing that resolutions depend on. -/
theorem library_leads {h : Host} (hs : h.node.loader.Steady h.world) {world : World}
    (hw : h.node.loader.Leads h.world world) : { h with world := world }.library = h.library := by
  have hload : { h with world := world }.library.load = h.library.load := by
    funext kind name
    exact hs _ hw kind name
  exact congrArg (fun load => (⟨load, h.node.global?, h.node.lookupGlobal⟩ : Library)) hload

end Host

/-- What a load of a definition comes to. -/
theorem run_loadDefinition (kind : DefinitionKind) (name : String) (m : Machine Host) :
    (Node.loadDefinition kind name).run m =
      ((m.host.library.find kind name).mapError .error,
        { m with host := m.host.loaded kind name }) := by
  cases hl : m.host.node.loader.load kind name m.host.world with
  | mk result world =>
    have hload : m.host.library.load kind name = result := congrArg Prod.fst hl
    have hloaded : m.host.loaded kind name = { m.host with world } :=
      congrArg (fun w => { m.host with world := w.2 }) hl
    rw [Library.find, hload, hloaded, Node.loadDefinition]
    simp only [run_bind, run_get, run_modify, hl]
    rcases result with e | _ | d <;> rfl

theorem run_buildInstance {κ : Type} {r : Resolver Host} {f : Nat} {d : Definition}
    {title : Option String} {seeds : Option (Table String Seed)} (c : CacheOf κ Nat)
    (m : Machine Host) :
    let q := (resolveInstance r m.instances.length).run (c.put (m.withInstance d title seeds)
      ((c.get m.host.node).publish f m.instances.length))
    (Node.buildInstance r (fun i => c.update fun cache => cache.publish f i) d title seeds).run m =
      (q.1.map fun _ => m.instances.length, q.2) := by
  intro q
  rw [Node.buildInstance, run_bind, Machine.run_createInstance]
  exact run_bind_const (resolveInstance r m.instances.length) m.instances.length _

/-- A new instance of what is loaded under a name, published while it is under way. A class has no
use for the levels of the node; they are read all the same. -/
def loadInstance (r : Resolver Host) (kind : DefinitionKind) (name label : String)
    (title : Option String) (seeds : Compiled → Option (Table String Seed))
    (publish : Nat → Act Host Unit) : Act Host Nat :=
  Act.mapError (.compilation kind label) do
    let d ← Node.loadDefinition kind name
    let seeds := seeds (← get).host.node.compiled
    Node.buildInstance r publish d title seeds

section Load

variable {κ : Type} {r : Resolver Host} {kind : DefinitionKind} {name label : String}
  {title : Option String} {seeds : Compiled → Option (Table String Seed)} {m : Machine Host}

/-- A load up to the resolution of its instance. -/
theorem run_loadInstance (c : CacheOf κ Nat) {f : Nat} {d : Definition}
    (hd : m.host.library.find kind name = .ok d) :
    (loadInstance r kind name label title seeds fun i =>
        c.update fun cache => cache.publish f i).run m =
      resolvedAs kind label m.instances.length ((resolveInstance r m.instances.length).run
        { m.withInstance d title (seeds m.host.node.compiled) with
          host := (c.put { m with host := m.host.loaded kind name }
            ((c.get m.host.node).publish f m.instances.length)).host }) := by
  rw [loadInstance, run_mapError, run_bind, run_loadDefinition, hd]
  simp only [Except.mapError, run_bind, run_get]
  rw [run_buildInstance c]
  rfl

theorem run_loadInstance_error {publish : Nat → Act Host Unit} {e : EvalError}
    (he : m.host.library.find kind name = .error e) :
    (loadInstance r kind name label title seeds publish).run m =
      (.error (.error (.compilation kind label e)), { m with host := m.host.loaded kind name }) := by
  rw [loadInstance, run_mapError, run_bind, run_loadDefinition, he]
  rfl

theorem Node.resolveClass_eq (r : Resolver Host) (name : String) :
    Node.resolveClass r name = CacheOf.classes.getOrLoad (Name.normalize name)
      (.cycle .hostClass (Name.normalize name))
      (loadInstance r .hostClass (Name.normalize name) (Name.normalize name) none fun _ => none) :=
  rfl

end Load

/-- A host that has begun to load a class. -/
def Host.begun (h : Host) (key : String) : Host :=
  let node := { h.node with classes := (h.node.classes.claim () key).2 }
  { h with node }.loaded .hostClass key

/-- A host that shows the instance of a class that it has begun to load. -/
def Host.showing (h : Host) (key : String) (i : Nat) : Host :=
  let node := (h.begun key).node
  { h.begun key with
    node := { node with classes := node.classes.publish h.node.classes.flights.length i } }

theorem Host.onward_begun (h : Host) (key : String) : h.Onward (h.begun key) :=
  ⟨⟨rfl, rfl, rfl, rfl⟩, rfl, .load .hostClass key .refl⟩

theorem Host.onward_showing (h : Host) (key : String) (i : Nat) :
    (h.begun key).Onward (h.showing key i) :=
  ⟨⟨rfl, rfl, rfl, rfl⟩, rfl, .refl⟩

theorem run_resolveClass_load {r : Resolver Host} {name : String} {m : Machine Host}
    (hnone : m.host.node.classes.slots.get? (Name.normalize name) = none) :
    (Node.resolveClass r name).run m =
      CacheOf.classes.conclude (Name.normalize name) m.host.node.classes.flights.length
        (match m.host.library.find .hostClass (Name.normalize name) with
        | .error e => (.error (.error (.compilation .hostClass (Name.normalize name) e)),
            { m with host := m.host.begun (Name.normalize name) })
        | .ok d => resolvedAs .hostClass (Name.normalize name) m.instances.length
            ((resolveInstance r m.instances.length).run { m.withInstance d none none with
              host := m.host.showing (Name.normalize name) m.instances.length })) := by
  rw [Node.resolveClass_eq, CacheOf.run_getOrLoad_load hnone]
  refine congrArg (CacheOf.classes.conclude _ _) ?_
  cases hd : m.host.library.find .hostClass (Name.normalize name) with
  | error e => exact run_loadInstance_error hd
  | ok d => exact run_loadInstance .classes hd

theorem SingleFlight.get?_claim {θ κ ν ε : Type} [DecidableEq θ] [DecidableEq κ]
    {c : SingleFlight θ κ ν ε} {me : θ} {key : κ} (h : c.slots.get? key = none) (k : κ) :
    ((c.claim me key).2).slots.get? k =
      if key = k then some (.loading c.flights.length) else c.slots.get? k := by
  rw [claim_load h]
  exact Table.get?_set _ _ _ _

theorem SingleFlight.get?_settle {θ κ ν ε : Type} [DecidableEq κ] {c : SingleFlight θ κ ν ε}
    {key : κ} {f : Nat} (h : c.slots.get? key = some (.loading f)) (r : Except ε ν) (k : κ) :
    (c.settle key f r).slots.get? k =
      if key = k then r.toOption.map .ready else c.slots.get? k := by
  unfold settle finish store
  rw [if_pos (loadOf?_eq_some.mpr h)]
  cases r with
  | ok v => simp [Table.get?_set, Except.toOption]
  | error e => simp [Table.get?_erase, Except.toOption]

theorem CacheOf.get?_conclude {κ ν : Type} [DecidableEq κ] {c : CacheOf κ ν} {key : κ} {f : Nat}
    {r : Except Fault ν × Machine Host} (hc : ∀ n cache, c.get (c.set n cache) = cache)
    (h : (c.get r.2.host.node).slots.get? key = some (.loading f)) (hne : r.1 ≠ .error .exhausted)
    (k : κ) : (c.get (c.conclude key f r).2.host.node).slots.get? k =
      if key = k then r.1.toOption.map .ready else (c.get r.2.host.node).slots.get? k := by
  obtain ⟨o, m⟩ := r
  simp only [conclude, put, hc]
  rcases o with (e | _) | v
  · exact SingleFlight.get?_settle h (.error e) k
  · exact absurd rfl hne
  · exact SingleFlight.get?_settle h (.ok v) k

namespace Machine

variable {L : Library} {depth k : Nat} {m m' : Machine Host} {key : String}

theorem get?_begun (hnone : m.host.node.classes.slots.get? key = none) (k : String) :
    (m.host.begun key).node.classes.slots.get? k =
      if key = k then some (.loading m.host.node.classes.flights.length)
      else m.host.node.classes.slots.get? k :=
  SingleFlight.get?_claim hnone k

theorem Coherent.begun (h : m.Coherent L depth) (hk : k ≤ depth)
    (hnone : m.host.node.classes.slots.get? key = none) (hnormal : Name.normalize key = key)
    (hkey : L.answer k key = .error .exhausted) :
    Coherent L k { m with host := m.host.begun key } where
  steady := h.steady.leads (.load .hostClass key .refl)
  library := (Host.library_leads h.steady (.load .hostClass key .refl)).trans h.library
  key k' s hk' := by
    rw [get?_begun hnone] at hk'
    split at hk'
    next he => exact he ▸ hnormal
    next => exact h.key k' s hk'
  ready k' i hk' := by
    rw [get?_begun hnone] at hk'
    split at hk'
    · exact absurd hk' (by simp)
    · exact h.ready k' i hk'
  loading k' f hk' := by
    rw [get?_begun hnone] at hk'
    split at hk'
    next he => exact he ▸ hkey
    next => exact (h.mono hk).loading k' f hk'
  function := h.function

theorem get?_showing (m : Machine Host) (key : String) (i : Nat) (k : String) :
    (m.host.showing key i).node.classes.slots.get? k =
      (m.host.begun key).node.classes.slots.get? k :=
  congrArg (Table.get? · k) (SingleFlight.slots_updateFlight _ _ _)

theorem Coherent.open_showing (h : m.Coherent L depth)
    (hnone : m.host.node.classes.slots.get? key = none) :
    (guard L k).Open (m.host.showing key m.instances.length) m.instances.length := by
  intro k' hk'
  rw [get?_showing, get?_begun hnone] at hk'
  split at hk'
  · exact absurd hk' (by simp)
  · exact (h.ready k' _ hk').1.false

theorem KeepsCache.of_showing {i : Nat} {d : Definition}
    (h : KeepsCache { m.withInstance d none none with host := m.host.showing key i } m') :
    KeepsCache { m with host := m.host.begun key } m' := by
  refine ⟨(m.host.onward_showing key i).trans h.onward, h.resources,
    fun k f => (h.loading k f).trans ?_, fun k j hk => ?_⟩
  · exact (get?_showing m key i k).symm ▸ Iff.rfl
  · rcases h.ready k j hk with hk | hle
    · exact .inl ((get?_showing m key i k).symm.trans hk)
    · have hafter : m.After ∅ (m.withInstance d none none) := m.after_withInstance ∅
      exact .inr (hafter.length_le.trans hle)

/-- While the instance of a class is resolved, all others in the cache are what they were. -/
theorem Coherent.showing (h : m.Coherent L depth) (hk : k ≤ depth)
    (hnone : m.host.node.classes.slots.get? key = none) (hnormal : Name.normalize key = key)
    (hkey : L.answer k key = .error .exhausted) (d : Definition) :
    Coherent L k { m.withInstance d none none with
      host := m.host.showing key m.instances.length } where
  steady := (h.begun hk hnone hnormal hkey).steady
  library := (h.begun hk hnone hnormal hkey).library
  key k' s hk' := by
    rw [get?_showing] at hk'
    exact (h.begun hk hnone hnormal hkey).key k' s hk'
  ready k' i hk' := by
    rw [get?_showing] at hk'
    obtain ⟨hlt, n, hanswer⟩ := (h.begun hk hnone hnormal hkey).ready k' i hk'
    have hafter : m.After ∅ (m.withInstance d none none) := m.after_withInstance ∅
    exact ⟨hlt.trans_le hafter.length_le, n,
      hanswer.trans (congrArg Except.ok (hafter.view? hlt (Set.notMem_empty _)).symm)⟩
  loading k' f hk' := by
    rw [get?_showing] at hk'
    exact (h.begun hk hnone hnormal hkey).loading k' f hk'
  function := (h.begun hk hnone hnormal hkey).function

variable {r : Except Fault Nat × Machine Host}

/-- What a load leaves in the cache is right if what it has come to is. -/
theorem Coherent.conclude (h : m.Coherent L depth) (h' : r.2.Coherent L k)
    (hnone : m.host.node.classes.slots.get? key = none) (hnormal : Name.normalize key = key)
    (hkeeps : KeepsCache { m with host := m.host.begun key } r.2)
    (hne : r.1 ≠ .error .exhausted) (hr : ∀ i, r.1 = .ok i → m.instances.length ≤ i ∧
      i < r.2.instances.length ∧ ∃ n, L.answer n key = .ok (r.2.view? i)) :
    let m' := (CacheOf.classes.conclude key m.host.node.classes.flights.length r).2
    m'.Coherent L depth ∧ m.KeepsCache m' := by
  have hloading : ∀ k' f, r.2.host.node.classes.slots.get? k' = some (.loading f) ↔
      if key = k' then f = m.host.node.classes.flights.length
      else m.host.node.classes.slots.get? k' = some (.loading f) := by
    intro k' f
    rw [hkeeps.loading k' f, get?_begun hnone]
    split
    · simp [eq_comm]
    · rfl
  have hslots : ∀ k', (CacheOf.classes.conclude key m.host.node.classes.flights.length
      r).2.host.node.classes.slots.get? k' = if key = k' then r.1.toOption.map .ready
        else r.2.host.node.classes.slots.get? k' :=
    CacheOf.get?_conclude (c := .classes) (fun _ _ => rfl)
      ((hloading key _).mpr (by rw [if_pos rfl])) hne
  have hnew : ∀ s, r.1.toOption.map Slot.ready = some s → ∃ i, r.1 = .ok i ∧ s = .ready i := by
    intro s hs
    rcases ho : r.1 with e | i
    · simp [ho, Except.toOption] at hs
    · exact ⟨i, rfl, by simpa [ho, Except.toOption] using hs.symm⟩
  have honward : m.host.Onward r.2.host := (m.host.onward_begun key).trans hkeeps.onward
  refine ⟨⟨h'.steady, h'.library, ?_, ?_, ?_, h'.function⟩,
    honward.trans ⟨⟨rfl, rfl, rfl, rfl⟩, rfl, .refl⟩, hkeeps.resources, ?_, ?_⟩
  · intro k' s hk'
    rw [hslots] at hk'
    split at hk'
    next he => exact he ▸ hnormal
    next => exact h'.key k' s hk'
  · intro k' i hk'
    rw [hslots] at hk'
    split at hk'
    next he =>
      obtain ⟨j, hj, hij⟩ := hnew _ hk'
      obtain rfl : i = j := by simpa using hij
      exact he ▸ (hr i hj).2
    next => exact h'.ready k' i hk'
  · intro k' f hk'
    rw [hslots] at hk'
    split at hk'
    next =>
      obtain ⟨j, -, hij⟩ := hnew _ hk'
      exact absurd hij (by simp)
    next he =>
      rw [hloading, if_neg he] at hk'
      exact h.loading k' f hk'
  · intro k' f
    rw [hslots]
    split
    next he =>
      subst he
      simp [hnone]
    next he => rw [hloading, if_neg he]
  · intro k' i hk'
    rw [hslots] at hk'
    split at hk'
    next =>
      obtain ⟨j, hj, hij⟩ := hnew _ hk'
      obtain rfl : i = j := by simpa using hij
      exact .inr (hr i hj).1
    next he =>
      rcases hkeeps.ready k' i hk' with hb | hle
      · rw [get?_begun hnone, if_neg he] at hb
        exact .inl hb
      · exact .inr hle

/-- A class that cannot be loaded leaves the caches as they were. -/
theorem Coherent.concludeError (h : m.Coherent L depth) (hk : k ≤ depth)
    (hnone : m.host.node.classes.slots.get? key = none) (hnormal : Name.normalize key = key)
    (hkey : L.answer k key = .error .exhausted) (e : EvalError) :
    let m' := (CacheOf.classes.conclude key m.host.node.classes.flights.length
      (.error (.error e), { m with host := m.host.begun key })).2
    m'.Coherent L depth ∧ m.KeepsCache m' :=
  h.conclude (h.begun hk hnone hnormal hkey) hnone hnormal (.refl _) (by simp)
    fun i hi => absurd hi (by simp)

/-- An instance that has come out as it would without caches is one to keep. -/
theorem Coherent.concludeInstance (h : m.Coherent L depth)
    (hnone : m.host.node.classes.slots.get? key = none) (hnormal : Name.normalize key = key)
    {d : Definition} {n : Nat} {q : Except Fault Unit × Machine Host} (hq : q.2.Coherent L k)
    (hkeeps : KeepsCache { m.withInstance d none none with
      host := m.host.showing key m.instances.length } q.2)
    (hlt : m.instances.length < q.2.instances.length)
    (hanswer : let built := resolvedAs .hostClass key m.instances.length q
      built.1.map built.2.view? = L.answer n key) (hne : q.1 ≠ .error .exhausted) :
    let m' := (CacheOf.classes.conclude key m.host.node.classes.flights.length
      (resolvedAs .hostClass key m.instances.length q)).2
    m'.Coherent L depth ∧ m.KeepsCache m' := by
  have hne' : (resolvedAs .hostClass key m.instances.length q).1 ≠ .error .exhausted :=
    resolvedAs_ne.mpr hne
  refine h.conclude (r := resolvedAs .hostClass key m.instances.length q) hq hnone hnormal
    hkeeps.of_showing hne' fun i hi => ?_
  obtain rfl := eq_of_resolvedAs hi
  simp only [hi] at hanswer
  exact ⟨le_rfl, hlt, n, hanswer.symm⟩

end Machine

/-- A class that is resolved with the caches is what it is without them. -/
theorem Node.resolveClass_follows {L : Library} {r : Resolver Host} {depth : Nat}
    (hr : ∀ k ≤ depth, r.Follows (Machine.guard L k) (L.resolver k)) {m : Machine Host}
    {p : Machine Unit} (name : String) (h : (Machine.guard L (depth + 1)).Ready m p)
    (hne : ((L.resolveClass (L.resolver depth) name).run p).1 ≠ .error .exhausted) :
    ((Node.resolveClass r name).run m).1.map ((Node.resolveClass r name).run m).2.view? =
      ((L.resolveClass (L.resolver depth) name).run p).1.map
        ((L.resolveClass (L.resolver depth) name).run p).2.view? ∧
    (Machine.guard L (depth + 1)).Beyond m ((Node.resolveClass r name).run m).2 p
      ((L.resolveClass (L.resolver depth) name).run p).2 := by
  have hright : p.After ∅ ((L.resolveClass (L.resolver depth) name).run p).2 :=
    (Library.resolveClass_follows (Library.resolver_follows le_rfl) h.right h.right hne).2.right
  have hanswer : L.answer (depth + 1) name = Except.map
      ((L.resolveClass (L.resolver depth) name).run p).2.view?
      ((L.resolveClass (L.resolver depth) name).run p).1 :=
    Library.answer_eq h.right hne
  have hsame := Library.answer_normalize L (depth + 1) name
  have hfound : L.answer (depth + 1) (Name.normalize name) ≠ .error .exhausted := by
    rw [hsame, hanswer]
    exact Fault.map_ne_exhausted.mpr hne
  have hnormal := Name.normalize_normalize name
  rw [← hanswer]
  cases hslot : m.host.node.classes.slots.get? (Name.normalize name) with
  | none =>
    obtain ⟨k, hk, hleast, hkey⟩ := Library.exists_least_answer hfound
    have hk' : k ≤ depth := Nat.le_of_lt_succ hk
    have hrun := run_resolveClass_load (r := r) hslot
    rw [h.holds.library] at hrun
    rw [hrun, ← hsame, Library.answer_unique hfound hleast, Library.answer_normalize]
    cases hd : L.find .hostClass (Name.normalize name) with
    | error e =>
      obtain ⟨hholds, hpassed⟩ := h.holds.concludeError (Nat.le_succ_of_le hk') hslot hnormal hkey
        (.compilation .hostClass (Name.normalize name) e)
      exact ⟨(Library.answer_error hd k).symm, hholds, hpassed, .of_host ∅ m _, hright⟩
    | ok d =>
      have hleast' : L.answer (k + 1) name ≠ .error .exhausted := by
        rwa [← Library.answer_normalize]
      have hend := Library.answer_succ hd k
      have hrun_ne := resolvedAs_ne.mp (Fault.map_ne_exhausted.mp (hend ▸ hleast'))
      obtain ⟨hresult, hq⟩ := (hr k hk').resolveInstance d none
        none ⟨h.holds.mono (Nat.le_succ_of_le hk'), h.left, Library.start_numbered⟩
        (h.holds.showing (Nat.le_succ_of_le hk') hslot hnormal hkey d)
        (h.holds.open_showing hslot) hrun_ne
      have hsees :=
        (view?_resolvedAs .hostClass (Name.normalize name) hresult hq.view).trans hend.symm
      obtain ⟨hholds', hpassed⟩ := h.holds.concludeInstance hslot hnormal hq.holds hq.passed
        hq.lt (hsees.trans (Library.answer_normalize L (k + 1) name).symm)
        (hresult ▸ hrun_ne)
      exact ⟨hsees, hholds', hpassed, hq.left.trans (.of_host ∅ _ _), hright⟩
  | some s =>
    cases s with
    | ready i =>
      have hrun : (Node.resolveClass r name).run m = (.ok i, m) := by
        rw [Node.resolveClass, CacheOf.run_getOrLoad_ready (fun _ => rfl) hslot]
      obtain ⟨-, n, hn⟩ := h.holds.ready _ i hslot
      rw [hrun]
      refine ⟨?_, h.holds, (Machine.guard L (depth + 1)).passed_of_host rfl, .refl ∅ m, hright⟩
      rw [← hsame, Library.answer_unique hfound (by rw [hn]; simp), hn]
      rfl
    | loading f => exact absurd (h.holds.loading _ f hslot) hfound

/-- The load of a function. -/
def loadFunction (key : String) : Act Host LoadedFunction := do
  let definition ← Node.loadDefinition .function key
  let serial ← modifyGet fun m =>
    let (serial, world) := m.host.world.serial
    (serial, { m with host := { m.host with world } })
  return ⟨serial, definition⟩

theorem run_loadFunction (key : String) (m : Machine Host) :
    ∃ world, m.host.node.loader.Leads m.host.world world ∧ ∃ o : Except Fault LoadedFunction,
      (loadFunction key).run m = (o, { m with host := { m.host with world } }) ∧
      o.map (·.definition) = (m.host.library.find .function key).mapError .error := by
  unfold loadFunction
  cases hd : m.host.library.find .function key with
  | error e =>
    refine ⟨_, .load .function key .refl, .error (.error e), ?_, rfl⟩
    rw [run_bind, run_loadDefinition, hd]
    rfl
  | ok d =>
    refine ⟨_, .serial (.load .function key .refl),
      .ok ⟨(m.host.node.loader.load .function key m.host.world).2.nextSerial, d⟩, ?_, rfl⟩
    rw [run_bind, run_loadDefinition, hd]
    rfl

/-- What is found for a function when its load has come to this. -/
theorem Node.run_resolveFunction {name : String} {m m' : Machine Host}
    {o : Except Fault LoadedFunction} {found : Except EvalError Definition}
    (hrun : (CacheOf.functions.getOrLoad (Name.normalize name) (.cycle .function (Name.normalize name))
      fun _ => loadFunction (Name.normalize name)).run m = (o, m'))
    (hmap : o.map (·.definition) = found.mapError .error) (depth : Nat) :
    ((Node.resolver (depth + 1)).resolveFunction name).run m =
      (functionOf (Name.normalize name) found, m') := by
  change (do return (← Node.resolveFunction name).map (·.definition) : Act Host _).run m = _
  rw [run_bind, Node.resolveFunction, run_bind, run_attempt]
  simp only [loadFunction] at hrun
  rw [hrun]
  cases found with
  | error e =>
    obtain rfl : o = .error (.error e) := by
      rcases o with e' | v
      · simpa [Except.map, Except.mapError] using hmap
      · simp [Except.map, Except.mapError] at hmap
    cases e <;> rfl
  | ok d =>
    obtain ⟨v, rfl, rfl⟩ : ∃ v, o = .ok v ∧ v.definition = d := by
      rcases o with e' | v
      · simp [Except.map, Except.mapError] at hmap
      · simpa [Except.map, Except.mapError] using hmap
    rfl

namespace Machine

variable {L : Library} {depth : Nat} {m : Machine Host}

/-- A function is found where it is looked for, and no class is touched. -/
theorem Coherent.getFunction (h : m.Coherent L depth) (key : String) (cycle : EvalError) :
    ∃ o m', (CacheOf.functions.getOrLoad key cycle fun _ => loadFunction key).run m = (o, m') ∧
      o.map (·.definition) = (L.find .function key).mapError .error ∧
      m'.Coherent L depth ∧ m.KeepsCache m' ∧ m.After ∅ m' := by
  cases hslot : m.host.node.functions.slots.get? key with
  | some s =>
    obtain ⟨v, rfl, hv⟩ := h.function key s hslot
    refine ⟨.ok v, m, ?_, ?_, h, .refl m, .refl ∅ m⟩
    · exact CacheOf.run_getOrLoad_ready (fun _ => rfl) hslot
    · rw [hv]
      rfl
  | none =>
    have hrun : (CacheOf.functions.getOrLoad key cycle fun _ => loadFunction key).run m = _ :=
      CacheOf.run_getOrLoad_load hslot
    let m' := CacheOf.functions.put m (m.host.node.functions.claim () key).2
    obtain ⟨world, hw, o, ho, hmap⟩ := run_loadFunction key m'
    replace hrun := hrun.trans (congrArg (CacheOf.functions.conclude key _) ho)
    have hmap' : o.map (·.definition) = (L.find .function key).mapError .error := by
      rw [← h.library]
      exact hmap
    have hne : o ≠ .error .exhausted := by
      rintro rfl
      cases hf : L.find .function key <;> simp [hf, Except.map, Except.mapError] at hmap'
    refine ⟨_, _, hrun, hmap', ⟨h.steady.leads hw, ?_, h.key, h.ready, h.loading, ?_⟩,
      .of_classes ⟨⟨rfl, rfl, rfl, rfl⟩, rfl, hw⟩ rfl rfl, .of_host ∅ m _⟩
    · exact (Host.library_leads h.steady hw).trans h.library
    · have hslots : ∀ k, ((m.host.node.functions.claim () key).2).slots.get? k =
          if key = k then some (.loading m.host.node.functions.flights.length)
          else m.host.node.functions.slots.get? k := SingleFlight.get?_claim hslot
      have hfinal := CacheOf.get?_conclude (c := .functions)
        (f := m.host.node.functions.flights.length)
        (r := (o, { m' with host := { m'.host with world := world } })) (fun _ _ => rfl)
        ((hslots key).trans (if_pos rfl)) hne
      intro k f hk
      replace hk := (hfinal k).symm.trans hk
      split at hk
      next he =>
        subst he
        rcases o with e | v
        · simp [Except.toOption] at hk
        · refine ⟨v, by simpa [Except.toOption, eq_comm] using hk, ?_⟩
          cases hf : L.find .function key <;>
            simp_all [Except.map, Except.mapError]
      next he =>
        refine h.function k f ?_
        rw [← hk]
        exact ((hslots k).trans (if_neg he)).symm

theorem Coherent.resolveFunction (h : m.Coherent L depth) (n : Nat) (name : String) :
    ∃ m', ((Node.resolver (n + 1)).resolveFunction name).run m =
        (functionOf (Name.normalize name) (L.find .function (Name.normalize name)), m') ∧
      m'.Coherent L depth ∧ m.KeepsCache m' ∧ m.After ∅ m' := by
  obtain ⟨o, m', hrun, hmap, hrest⟩ := h.getFunction (Name.normalize name)
    (.cycle .function (Name.normalize name))
  exact ⟨m', Node.run_resolveFunction hrun hmap n, hrest⟩

/-- Where values come from is nothing that resolutions depend on. -/
theorem Coherent.registerSource (h : m.Coherent L depth) (kind : SourceKind) (name : String)
    (level : Nat) :
    let host : Host := { m.host with node := m.host.node.registerSource kind name level }
    Coherent L depth { m with host := host } ∧ m.KeepsCache { m with host := host } :=
  ⟨⟨h.steady, h.library, h.key, h.ready, h.loading, h.function⟩,
    .of_classes ⟨⟨rfl, rfl, rfl, rfl⟩, rfl, .refl⟩ rfl rfl⟩

end Machine

namespace Node

variable {L : Library}

theorem resolver_global? (n : Nat) (h : Host) : (resolver n).global? h = h.node.global? := by
  cases n <;> rfl

theorem resolver_lookupGlobal (n : Nat) (h : Host) :
    (resolver n).lookupGlobal h = h.node.lookupGlobal := by
  cases n <;> rfl

theorem resolver_registerSource (n : Nat) (kind : SourceKind) (name : String) (level : Nat)
    (h : Host) : (resolver n).registerSource kind name level h =
      { h with node := h.node.registerSource kind name level } := by
  cases n <;> rfl

/-- A node gives every answer that is found without its caches, and needs no more depth for it. -/
theorem resolver_follows {depth n : Nat} (hle : depth ≤ n) :
    (resolver n).Follows (Machine.guard L depth) (L.resolver depth) := by
  induction depth using Nat.strong_induction_on generalizing n with
  | _ depth ih =>
    have hglobal : ∀ {m : Machine Host} (name : String), m.Coherent L depth →
        (resolver n).global? m.host name = (L.resolver depth).global? () name := by
      intro m name h
      rw [resolver_global?, Library.resolver_global?, ← h.library]
      rfl
    have hlookup : ∀ {m : Machine Host} (name : String), m.Coherent L depth →
        (resolver n).lookupGlobal m.host name = (L.resolver depth).lookupGlobal () name := by
      intro m name h
      rw [resolver_lookupGlobal, Library.resolver_lookupGlobal, ← h.library]
      rfl
    have hsource : ∀ {m : Machine Host} (kind : SourceKind) (name : String) (level : Nat),
        m.Coherent L depth →
        Machine.Coherent L depth
          { m with host := (resolver n).registerSource kind name level m.host } ∧
        m.KeepsCache { m with host := (resolver n).registerSource kind name level m.host } := by
      intro m kind name level h
      rw [resolver_registerSource]
      exact h.registerSource kind name level
    cases depth with
    | zero =>
      exact
        { resolveClass _ _ hne := absurd rfl hne
          resolveFunction _ _ hne := absurd rfl hne
          invoke _ _ _ hne := absurd rfl hne
          global? := hglobal
          lookupGlobal := hlookup
          registerSource := hsource }
    | succ depth =>
      obtain ⟨n, rfl⟩ : ∃ k, n = k + 1 := ⟨n - 1, by omega⟩
      have hr : ∀ k ≤ depth, (resolver n).Follows (Machine.guard L k) (L.resolver k) :=
        fun k hk => ih k (by omega) (by omega)
      exact
        { resolveClass name h hne := resolveClass_follows hr name h hne
          resolveFunction {m p} name h hne := by
            obtain ⟨m', hrun, hholds, hpassed, hafter⟩ := h.holds.resolveFunction n name
            have hright := Library.run_resolveFunction (L := L) name p
            rw [hrun]
            change _ = ((L.resolveFunction name).run p).1 ∧
              Guard.Beyond _ m _ p ((L.resolveFunction name).run p).2
            rw [hright]
            exact ⟨rfl, hholds, hpassed, hafter, .refl ∅ p⟩
          invoke d args h hne := by
            have hready := Guard.Ready.mk (G := Machine.guard L depth)
              (h.holds.mono (Nat.le_succ depth)) h.left h.right
            obtain ⟨hresult, hb⟩ := (hr depth le_rfl).invokeFunction d args hready hne
            exact ⟨hresult, h.holds.of_keepsCache hb.holds hb.passed, hb.passed, hb.left, hb.right⟩
          global? := hglobal
          lookupGlobal := hlookup
          registerSource := hsource }

end Node

namespace Machine

variable {L : Library} {m : Machine Host} {name : String}

/-- Asks a node for a class. -/
def resolve (m : Machine Host) (name : String) : Except Fault Nat × Machine Host :=
  (Node.resolveClass (Node.resolver Node.depth) name).run m

/-- What a node shows of a class, or why it has none. -/
def shows (m : Machine Host) (name : String) : Except Fault (Option Instance) :=
  (m.resolve name).1.map (m.resolve name).2.view?

/-- The deepest that a node can be asked. -/
abbrev depth : Nat := Node.depth + 1

/-- A coherent node shows what is found without its caches, and stays coherent. -/
theorem Coherent.resolve (h : m.Coherent L depth) (hn : m.Numbered)
    (hfound : L.answer depth name ≠ .error .exhausted) :
    m.shows name = L.answer depth name ∧ (m.resolve name).2.Coherent L depth ∧
      (m.resolve name).2.Numbered ∧ m.host.Onward (m.resolve name).2.host := by
  obtain ⟨hanswer, hb⟩ := (Node.resolver_follows (L := L) (Nat.le_refl depth)).resolveClass name
    ⟨h, hn, Library.start_numbered⟩ (Library.run_ne_of_answer_ne hfound)
  exact ⟨hanswer, hb.holds, hb.left.numbered hn, hb.passed.onward⟩

/-- A class in the cache is shown as it is there. -/
theorem shows_of_ready {i : Nat}
    (h : m.host.node.classes.slots.get? (Name.normalize name) = some (.ready i)) :
    m.shows name = .ok (m.view? i) := by
  have hrun : m.resolve name = (.ok i, m) := by
    rw [Machine.resolve, Node.resolveClass, CacheOf.run_getOrLoad_ready (fun _ => rfl) h]
  rw [shows, hrun]
  rfl

end Machine

end Cascade
