import Cascade.Proofs.Node.Watcher
/-!
Titles of defined types. They are asked for from outside only, so their cache plays no part while
classes are resolved, and one that is loaded comes out as it would without caches.
-/
namespace Cascade

open Filter

/-- What messages call a title of a defined type. -/
def resourceLabel (typeName title : String) : String := typeName ++ "[" ++ title ++ "]"

namespace Library

variable {L : Library} {seeds : Table String Seed} {typeName title : String}

/-- The title of a defined type, with the parameters that are given to it. -/
def resolveResource (L : Library) (r : Resolver Unit) (seeds : Table String Seed)
    (typeName title : String) : Act Unit Nat :=
  L.build r .definedType typeName (resourceLabel typeName title) (some title) (some seeds)

/-- What is found for a title, with requests nested this deep at most. -/
def resource (L : Library) (seeds : Table String Seed) (depth : Nat) (typeName title : String) :
    Except Fault (Option Instance) :=
  let q := (L.resolveResource (L.resolver depth) seeds typeName title).run (.start ())
  q.1.map q.2.view?

theorem resource_error {e : EvalError} (h : L.find .definedType typeName = .error e) (depth : Nat) :
    L.resource seeds depth typeName title =
      .error (.error (.compilation .definedType (resourceLabel typeName title) e)) := by
  rw [resource, resolveResource, run_build_error h]
  rfl

/-- What is found for a title is what its instance has come to. -/
theorem resource_eq {d : Definition} (h : L.find .definedType typeName = .ok d) (depth : Nat) :
    let q := resolvedAs .definedType (resourceLabel typeName title) 0
      ((resolveInstance (L.resolver depth) 0).run
        ((Machine.start ()).withInstance d (some title) (some seeds)))
    L.resource seeds depth typeName title = q.1.map q.2.view? :=
  congrArg (fun q => q.1.map q.2.view?) (run_build h (.start ()))

end Library

/-- A host that has begun to load a title. -/
def Host.begunTitle (h : Host) (key : String × String) : Host :=
  let node := { h.node with resources := (h.node.resources.claim () key).2 }
  { h with node }.loaded .definedType key.1

/-- A host that shows the instance of a title that it has begun to load. -/
def Host.showingTitle (h : Host) (key : String × String) (i : Nat) : Host :=
  let node := (h.begunTitle key).node
  { h.begunTitle key with
    node := { node with resources := node.resources.publish h.node.resources.flights.length i } }

theorem Node.resolveResource_eq (r : Resolver Host) (typeName title : String) :
    let key := (Name.normalize typeName, title)
    let label := resourceLabel key.1 key.2
    Node.resolveResource r typeName title = CacheOf.resources.getOrLoad key
      (.cycle .definedType label) (loadInstance r .definedType key.1 label (some key.2)
        fun c => some (Node.seedsOf c key.1 key.2)) :=
  rfl

theorem run_resolveResource_load {r : Resolver Host} {typeName title : String} {m : Machine Host}
    (hnone : m.host.node.resources.slots.get? (Name.normalize typeName, title) = none) :
    let key := (Name.normalize typeName, title)
    (Node.resolveResource r typeName title).run m =
      CacheOf.resources.conclude key m.host.node.resources.flights.length
        (match m.host.library.find .definedType key.1 with
        | .error e => (.error (.error (.compilation .definedType (resourceLabel key.1 key.2) e)),
            { m with host := m.host.begunTitle key })
        | .ok d => resolvedAs .definedType (resourceLabel key.1 key.2) m.instances.length
            ((resolveInstance r m.instances.length).run
              { m.withInstance d (some key.2)
                  (some (Node.seedsOf m.host.node.compiled key.1 key.2)) with
                host := m.host.showingTitle key m.instances.length })) := by
  intro key
  rw [Node.resolveResource_eq, CacheOf.run_getOrLoad_load hnone]
  refine congrArg (CacheOf.resources.conclude _ _) ?_
  cases hd : m.host.library.find .definedType key.1 with
  | error e => exact run_loadInstance_error hd
  | ok d => exact run_loadInstance .resources hd

namespace Machine

variable {L : Library} {depth : Nat} {m m' : Machine Host} {key : String × String}

/-- A node stays coherent while nothing is done to its classes and functions. -/
theorem Coherent.of_after (h : m.Coherent L depth) (ha : m.After ∅ m')
    (hclasses : m'.host.node.classes = m.host.node.classes)
    (hfunctions : m'.host.node.functions = m.host.node.functions)
    (hsteady : m'.host.node.loader.Steady m'.host.world) (hlibrary : m'.host.library = L) :
    m'.Coherent L depth where
  steady := hsteady
  library := hlibrary
  key := hclasses ▸ h.key
  ready k i hk := by
    rw [hclasses] at hk
    obtain ⟨hlt, n, hanswer⟩ := h.ready k i hk
    exact ⟨hlt.trans_le ha.length_le, n, by rw [hanswer, ha.view? hlt (Set.notMem_empty _)]⟩
  loading := hclasses ▸ h.loading
  function := hfunctions ▸ h.function

theorem get?_begunTitle (hnone : m.host.node.resources.slots.get? key = none)
    (k : String × String) : (m.host.begunTitle key).node.resources.slots.get? k =
      if key = k then some (.loading m.host.node.resources.flights.length)
      else m.host.node.resources.slots.get? k :=
  SingleFlight.get?_claim hnone k

theorem get?_showingTitle (m : Machine Host) (key : String × String) (i : Nat)
    (k : String × String) : (m.host.showingTitle key i).node.resources.slots.get? k =
      (m.host.begunTitle key).node.resources.slots.get? k :=
  congrArg (Table.get? · k) (SingleFlight.slots_updateFlight _ _ _)

theorem onward_begunTitle (m : Machine Host) (key : String × String) :
    m.host.Onward (m.host.begunTitle key) :=
  ⟨⟨rfl, rfl, rfl, rfl⟩, rfl, .load .definedType key.1 .refl⟩

theorem onward_showingTitle (m : Machine Host) (key : String × String) (i : Nat) :
    m.host.Onward (m.host.showingTitle key i) :=
  ⟨⟨rfl, rfl, rfl, rfl⟩, rfl, .load .definedType key.1 .refl⟩

theorem Coherent.begunTitle (h : m.Coherent L depth) (key : String × String) :
    Coherent L depth { m with host := m.host.begunTitle key } :=
  h.of_after (.of_host ∅ m _) rfl rfl (h.steady.leads (.load .definedType key.1 .refl))
    ((Host.library_leads h.steady (.load .definedType key.1 .refl)).trans h.library)

/-- While the instance of a title is resolved, the classes in the cache are what they were. -/
theorem Coherent.showingTitle (h : m.Coherent L depth) (key : String × String)
    (d : Definition) (title : Option String) (seeds : Option (Table String Seed)) :
    Coherent L depth { m.withInstance d title seeds with
      host := m.host.showingTitle key m.instances.length } :=
  h.of_after ((m.after_withInstance ∅).trans (.of_host ∅ _ _)) rfl rfl
    (h.steady.leads (.load .definedType key.1 .refl))
    ((Host.library_leads h.steady (.load .definedType key.1 .refl)).trans h.library)

theorem Coherent.open_showingTitle (h : m.Coherent L depth) (key : String × String) :
    (guard L depth).Open (m.host.showingTitle key m.instances.length) m.instances.length :=
  fun k hk => (h.ready k _ hk).1.false

/-- What a machine is like after a title has been loaded. -/
structure LoadedTitle (L : Library) (m : Machine Host) (key : String × String)
    (q : Except Fault Nat × Machine Host) : Prop where
  coherent : q.2.Coherent L 0
  after : m.After ∅ q.2
  onward : m.host.Onward q.2.host
  lt : ∀ i, q.1 = .ok i → i < q.2.instances.length
  slots : ∀ k, q.2.host.node.resources.slots.get? k =
    if key = k then q.1.toOption.map .ready else m.host.node.resources.slots.get? k

variable {q : Except Fault Nat × Machine Host}

theorem Coherent.concludeTitle (h : q.2.Coherent L 0) (ha : m.After ∅ q.2)
    (ho : m.host.Onward q.2.host) (hne : q.1 ≠ .error .exhausted)
    (hlt : ∀ i, q.1 = .ok i → i < q.2.instances.length)
    (hslots : ∀ k, q.2.host.node.resources.slots.get? k =
      if key = k then some (.loading m.host.node.resources.flights.length)
      else m.host.node.resources.slots.get? k) :
    m.LoadedTitle L key (CacheOf.resources.conclude key m.host.node.resources.flights.length q) where
  coherent := h.of_after (.of_host ∅ _ _) rfl rfl h.steady h.library
  after := ha.trans (.of_host ∅ _ _)
  onward := ho.trans ⟨⟨rfl, rfl, rfl, rfl⟩, rfl, .refl⟩
  lt := hlt
  slots k := by
    have hown : q.2.host.node.resources.slots.get? key =
        some (.loading m.host.node.resources.flights.length) := (hslots key).trans (if_pos rfl)
    refine (CacheOf.get?_conclude (c := .resources) (fun _ _ => rfl) hown hne k).trans ?_
    split
    · rfl
    next hk => exact (hslots k).trans (if_neg hk)

end Machine

section Titles

variable {L : Library} {r : Resolver Host} {m : Machine Host} {typeName title : String}

/-- The parameters that a node has for a title. -/
def Machine.seeds (m : Machine Host) (typeName title : String) : Table String Seed :=
  Node.seedsOf m.host.node.compiled (Name.normalize typeName) title

/-- A title that is loaded to the end tells what it is without caches. -/
theorem Node.resolveResource_foretells (hr : r.Foretells (Machine.guard L 0) L.resolver)
    (h : m.Coherent L 0) (hn : m.Numbered)
    (hslot : m.host.node.resources.slots.get? (Name.normalize typeName, title) = none)
    (hne : ((resolveResource r typeName title).run m).1 ≠ .error .exhausted) :
    let q := (resolveResource r typeName title).run m
    (∀ᶠ d in atTop, L.resource (m.seeds typeName title) d (Name.normalize typeName) title =
      q.1.map q.2.view?) ∧ m.LoadedTitle L (Name.normalize typeName, title) q := by
  have hload := run_resolveResource_load (r := r) hslot
  rw [h.library] at hload
  simp only at hload
  cases hd : L.find .definedType (Name.normalize typeName) with
  | error e =>
    rw [hd] at hload
    rw [hload]
    refine ⟨.of_forall fun d => Library.resource_error hd d, ?_⟩
    exact (h.begunTitle _).concludeTitle (.of_host ∅ m _) (m.onward_begunTitle _) (by simp)
      (fun i hi => absurd hi (by simp)) (Machine.get?_begunTitle hslot)
  | ok f =>
    rw [hd] at hload
    rw [hload] at hne ⊢
    simp only at hne ⊢
    have hresolved := hr.resolveInstance f (some title) (some (m.seeds typeName title))
      (h.showingTitle (Name.normalize typeName, title) f _ _) (h.open_showingTitle _)
      (resolvedAs_ne.mp hne)
    have hempty := hresolved.mono fun d hd => hd (.start ()) ⟨h, hn, Library.start_numbered⟩
    obtain ⟨n, -, hq⟩ := hempty.exists
    refine ⟨?_, Machine.Coherent.concludeTitle (q := resolvedAs .definedType _ _ _) hq.holds hq.left
      ((m.onward_showingTitle _ _).trans hq.passed.onward) hne
      (fun i hi => eq_of_resolvedAs hi ▸ hq.lt) fun k => ?_⟩
    · filter_upwards [hempty] with d hd'
      exact (Library.resource_eq hd d).trans (view?_resolvedAs _ _ hd'.1 hd'.2.view.symm)
    · have hsame := congrArg (fun c => c.slots.get? k) hq.passed.resources
      exact hsame.trans ((Machine.get?_showingTitle m _ _ k).trans (Machine.get?_begunTitle hslot k))

/-- A title that is found without caches is found by a node that has not loaded it yet. -/
theorem Node.resolveResource_follows {depth : Nat}
    (hr : r.Follows (Machine.guard L depth) (L.resolver depth)) (h : m.Coherent L depth)
    (hn : m.Numbered)
    (hslot : m.host.node.resources.slots.get? (Name.normalize typeName, title) = none)
    (hne : L.resource (m.seeds typeName title) depth (Name.normalize typeName) title ≠
      .error .exhausted) :
    let q := (resolveResource r typeName title).run m
    q.1.map q.2.view? =
      L.resource (m.seeds typeName title) depth (Name.normalize typeName) title := by
  have hload := run_resolveResource_load (r := r) hslot
  rw [h.library] at hload
  simp only at hload
  rw [hload]
  cases hd : L.find .definedType (Name.normalize typeName) with
  | error e => exact (Library.resource_error hd depth).symm
  | ok f =>
    rw [Library.resource_eq hd] at hne ⊢
    obtain ⟨hresult, hq⟩ := hr.resolveInstance f (some title) (some (m.seeds typeName title))
      ⟨h, hn, Library.start_numbered⟩
      (h.showingTitle (Name.normalize typeName, title) f _ _) (h.open_showingTitle _)
      (resolvedAs_ne.mp (Fault.map_ne_exhausted.mp hne))
    exact view?_resolvedAs _ _ hresult hq.view

end Titles

end Cascade
