import Cascade.Proofs.Node.Coherence
import Cascade.Proofs.Node.Titles
/-!
Caches are transparent. Whatever a node has been asked for, and whatever has been thrown out of its
caches, it replies as a node of the same files that is asked for the first time. In between all that
it has is what would be found without caches, so every request tells what that is, and leaves the
caches so again.
-/
namespace Cascade

open Filter

/-- What a node is asked from outside, without anything being written. -/
inductive Request
  | resolveClass (name : String)
  | resolveResource (typeName title : String)
  | resolveFunction (name : String)
  | invalidateClass (name : String)
  | invalidateResource (typeName title : String)
  | invalidateFunction (name : String)

/-- What comes back: all that can be seen of an instance, a function, or nothing. -/
inductive Reply
  | shown (i : Option Instance)
  | function (d : Option Definition)
  | done

namespace Request

/-- A request to a node that resolves what it needs with `r`. -/
def run (r : Resolver Host) (m : Machine Host) : Request → Except Fault Reply × Machine Host
  | resolveClass name =>
    let q := (r.resolveClass name).run m
    (q.1.map fun i => .shown (q.2.view? i), q.2)
  | resolveResource typeName title =>
    let q := (Node.resolveResource r typeName title).run m
    (q.1.map fun i => .shown (q.2.view? i), q.2)
  | resolveFunction name =>
    let q := (r.resolveFunction name).run m
    (q.1.map .function, q.2)
  | invalidateClass name => (.ok .done, m.invalidateClass name)
  | invalidateResource typeName title =>
    let node := m.host.node.invalidateResource typeName title
    (.ok .done, { m with host := { m.host with node } })
  | invalidateFunction name =>
    let node := m.host.node.invalidateFunction name
    (.ok .done, { m with host := { m.host with node } })

/-- The node after requests, one after the other. -/
def runAll (r : Resolver Host) (requests : List Request) (m : Machine Host) : Machine Host :=
  requests.foldl (fun m q => (q.run r m).2) m

/-- Every request comes to an end with requests nested this deep at most, and in none of them a class
is asked for while it is being loaded. -/
def Undisturbed (depth : Nat) (requests : List Request) (m : Machine Host) : Prop :=
  ∀ pre q, pre ++ [q] <+: requests →
    (q.run (Node.watcher depth) (runAll (Node.resolver depth) pre m)).1 ≠ .error .exhausted

/-- The reply that is found without caches. -/
def reference (L : Library) (c : Compiled) (depth : Nat) : Request → Except Fault Reply
  | resolveClass name => (L.answer depth name).map .shown
  | resolveResource typeName title =>
    let typeName := Name.normalize typeName
    (L.resource (Node.seedsOf c typeName title) depth typeName title).map .shown
  | resolveFunction name => (((L.resolver depth).resolveFunction name).run (.start ())).1.map .function
  | _ => .ok .done

variable {r s : Resolver Host} {m : Machine Host} {q : Request}

theorem map_map {α β γ : Type} (f : α → β) (g : β → γ) (o : Except Fault α) :
    (o.map f).map g = o.map fun a => g (f a) := by
  rcases o with e | a <;> rfl

theorem run_extends (h : s.Extends r) (hne : (q.run r m).1 ≠ .error .exhausted) :
    q.run s m = q.run r m := by
  cases q with
  | resolveClass name =>
    have hrun := h.resolveClass name m (Fault.map_ne_exhausted.mp hne)
    rw [run, run, hrun]
  | resolveResource typeName title =>
    have hrun := h.nodeResource typeName title m (Fault.map_ne_exhausted.mp hne)
    rw [run, run, hrun]
  | resolveFunction name =>
    have hrun := h.resolveFunction name m (Fault.map_ne_exhausted.mp hne)
    rw [run, run, hrun]
  | invalidateClass | invalidateResource | invalidateFunction => rfl

end Request

namespace Machine

/-- What a node has in its caches is what would be found without them. -/
structure Transparent (L : Library) (c : Compiled) (m : Machine Host) : Prop where
  coherent : m.Coherent L 0
  numbered : m.Numbered
  compiled : m.host.node.compiled = c
  titles : ∀ k s, m.host.node.resources.slots.get? k = some s → ∃ i, s = .ready i ∧
    i < m.instances.length ∧
    ∀ᶠ d in atTop, L.resource (Node.seedsOf c k.1 k.2) d k.1 k.2 = .ok (m.view? i)

variable {L : Library} {c : Compiled} {depth : Nat} {m m' : Machine Host}

/-- What happens to classes and functions does nothing to titles. -/
theorem Transparent.of_beyond (h : m.Transparent L c) (hcoherent : m'.Coherent L 0)
    (hkeeps : m.KeepsCache m') (ha : m.After ∅ m') : m'.Transparent L c where
  coherent := hcoherent
  numbered := ha.numbered h.numbered
  compiled := hkeeps.onward.compiled.trans h.compiled
  titles k s hk := by
    rw [hkeeps.resources] at hk
    obtain ⟨i, rfl, hlt, hi⟩ := h.titles k s hk
    refine ⟨i, rfl, hlt.trans_le ha.length_le, ?_⟩
    rw [ha.view? hlt (Set.notMem_empty _)]
    exact hi

theorem Transparent.of_loadedTitle {key : String × String} {q : Except Fault Nat × Machine Host}
    (h : m.Transparent L c) (hq : m.LoadedTitle L key q)
    (hfound : ∀ᶠ d in atTop, L.resource (Node.seedsOf c key.1 key.2) d key.1 key.2 =
      q.1.map q.2.view?) : q.2.Transparent L c where
  coherent := hq.coherent
  numbered := hq.after.numbered h.numbered
  compiled := hq.onward.compiled.trans h.compiled
  titles k s hk := by
    rw [hq.slots] at hk
    split at hk
    next he =>
      subst he
      rcases ho : q.1 with e | i
      · simp [ho, Except.toOption] at hk
      · obtain rfl : s = .ready i := by simpa [ho, Except.toOption, eq_comm] using hk
        refine ⟨i, rfl, hq.lt i ho, ?_⟩
        rw [ho] at hfound
        exact hfound
    next he =>
      obtain ⟨i, rfl, hlt, hi⟩ := h.titles k s hk
      refine ⟨i, rfl, hlt.trans_le hq.after.length_le, ?_⟩
      rw [hq.after.view? hlt (Set.notMem_empty _)]
      exact hi

/-- Caches may lose what they have. -/
theorem Transparent.of_node (h : m.Transparent L c) {node : Node}
    (hloader : node.loader = m.host.node.loader)
    (hcompiled : node.compiled = m.host.node.compiled)
    (hlibrary : Host.library ⟨node, m.host.world⟩ = m.host.library)
    (hclasses : ∀ k s, node.classes.slots.get? k = some s →
      m.host.node.classes.slots.get? k = some s)
    (hresources : ∀ k s, node.resources.slots.get? k = some s →
      m.host.node.resources.slots.get? k = some s)
    (hfunctions : ∀ k s, node.functions.slots.get? k = some s →
      m.host.node.functions.slots.get? k = some s) :
    Transparent L c { m with host := { m.host with node := node } } where
  coherent :=
    { steady := hloader ▸ h.coherent.steady
      library := hlibrary.trans h.coherent.library
      key := fun k s hk => h.coherent.key k s (hclasses k s hk)
      ready := fun k i hk => h.coherent.ready k i (hclasses k _ hk)
      loading := fun k f hk => h.coherent.loading k f (hclasses k _ hk)
      function := fun k f hk => h.coherent.function k f (hfunctions k _ hk) }
  numbered := h.numbered
  compiled := hcompiled.trans h.compiled
  titles k s hk := h.titles k s (hresources k s hk)

/-- A request tells what is found without caches, and adds nothing else to them. -/
theorem Transparent.run (h : m.Transparent L c) {q : Request} {n : Nat}
    (hne : (q.run (Node.watcher n) m).1 ≠ .error .exhausted) :
    (∀ᶠ d in atTop, q.reference L c d = (q.run (Node.watcher n) m).1) ∧
      (q.run (Node.watcher n) m).2.Transparent L c := by
  have hready := fun p : Machine Unit => Guard.Ready.mk (G := guard L 0) (p := p) h.coherent h.numbered
  cases q with
  | resolveClass name =>
    have hclass := (Node.watcher_foretells L n).resolveClass name (Fault.map_ne_exhausted.mp hne)
    have hstart := hclass.mono fun d hd => hd (.start ()) (hready _ Library.start_numbered)
    obtain ⟨_, -, hb⟩ := hstart.exists
    refine ⟨?_, h.of_beyond hb.holds hb.passed hb.left⟩
    filter_upwards [hstart] with d hd
    exact (congrArg (Except.map Reply.shown) hd.1).trans (Request.map_map _ _ _)
  | resolveResource typeName title =>
    have hne' := Fault.map_ne_exhausted.mp hne
    cases hslot : m.host.node.resources.slots.get? (Name.normalize typeName, title) with
    | none =>
      obtain ⟨hfound, hq⟩ := Node.resolveResource_foretells (Node.watcher_foretells L n) h.coherent
        h.numbered hslot hne'
      rw [Machine.seeds, h.compiled] at hfound
      refine ⟨?_, h.of_loadedTitle hq hfound⟩
      filter_upwards [hfound] with d hd
      exact (congrArg (Except.map Reply.shown) hd).trans (Request.map_map _ _ _)
    | some s =>
      obtain ⟨i, rfl, -, hi⟩ := h.titles _ s hslot
      have hrun : (Node.resolveResource (Node.watcher n) typeName title).run m = (.ok i, m) := by
        rw [Node.resolveResource, CacheOf.run_getOrLoad_ready (c := .resources) (fun _ => rfl) hslot]
      rw [Request.run, hrun]
      refine ⟨?_, h⟩
      filter_upwards [hi] with d hd
      exact congrArg (Except.map Reply.shown) hd
  | resolveFunction name =>
    have hf := (Node.watcher_foretells L n).resolveFunction name (Fault.map_ne_exhausted.mp hne)
    have hstart := hf.mono fun d hd => hd (.start ()) (hready _ Library.start_numbered)
    obtain ⟨_, -, hb⟩ := hstart.exists
    refine ⟨?_, h.of_beyond hb.holds hb.passed hb.left⟩
    filter_upwards [hstart] with d hd
    exact congrArg (Except.map Reply.function) hd.1
  | invalidateClass name =>
    exact ⟨.of_forall fun d => rfl, h.of_node rfl rfl rfl (fun _ _ hk => get?_of_forgetClasses hk)
      (fun _ _ hk => hk) fun _ _ hk => hk⟩
  | invalidateResource typeName title =>
    exact ⟨.of_forall fun d => rfl, h.of_node rfl rfl rfl (fun _ _ hk => hk)
      (fun _ _ hk => get?_of_invalidate hk) fun _ _ hk => hk⟩
  | invalidateFunction name =>
    exact ⟨.of_forall fun d => rfl, h.of_node rfl rfl rfl (fun _ _ hk => hk) (fun _ _ hk => hk)
      fun _ _ hk => get?_of_invalidate hk⟩

theorem transparent_of_create {files : Files} {certname : String} {facts : Facts}
    {hierarchy : Hierarchy} {loader : Loader} {node : Node} {world : World}
    (h : Node.create files certname facts hierarchy loader = .ok node)
    (hs : loader.Steady world) :
    Transparent (Host.library ⟨node, world⟩) node.compiled (.start ⟨node, world⟩) where
  coherent := coherent_of_create h hs 0
  numbered := numbered_start _
  compiled := rfl
  titles k s hk := by
    obtain ⟨compiled, -, rfl⟩ := Node.exists_of_create h
    exact absurd hk (by simp [start, SingleFlight.empty])

/-- A node that has just been made replies what is found without caches. -/
theorem reply_of_create {files : Files} {certname : String} {facts : Facts}
    {hierarchy : Hierarchy} {loader : Loader} {node : Node} {world : World}
    (h : Node.create files certname facts hierarchy loader = .ok node)
    (hs : loader.Steady world) {q : Request} {d : Nat}
    (hne : q.reference (Host.library ⟨node, world⟩) node.compiled d ≠ .error .exhausted) :
    (q.run (Node.resolver d) (.start ⟨node, world⟩)).1 =
      q.reference (Host.library ⟨node, world⟩) node.compiled d := by
  have hfollows := Node.resolver_follows (L := Host.library ⟨node, world⟩) (Nat.le_refl d)
  have hcoherent : Coherent (Host.library ⟨node, world⟩) d (start ⟨node, world⟩) :=
    coherent_of_create h hs d
  have hready := Guard.Ready.mk (G := guard (Host.library ⟨node, world⟩) d) hcoherent
    (numbered_start _) Library.start_numbered
  cases q with
  | resolveClass name =>
    have hanswer := (hfollows.resolveClass name hready
      (Library.run_ne_of_answer_ne (Fault.map_ne_exhausted.mp hne))).1
    exact (Request.map_map _ _ _).symm.trans (congrArg (Except.map Reply.shown) hanswer)
  | resolveResource typeName title =>
    have hnone : (start ⟨node, world⟩ : Machine Host).host.node.resources.slots.get?
        (Name.normalize typeName, title) = none := by
      obtain ⟨compiled, -, rfl⟩ := Node.exists_of_create h
      simp [start, SingleFlight.empty]
    have hanswer := Node.resolveResource_follows hfollows hcoherent (numbered_start _) hnone
      (Fault.map_ne_exhausted.mp hne)
    exact (Request.map_map _ _ _).symm.trans (congrArg (Except.map Reply.shown) hanswer)
  | resolveFunction name =>
    have hanswer := (hfollows.resolveFunction name hready (Fault.map_ne_exhausted.mp hne)).1
    exact congrArg (Except.map Reply.function) hanswer
  | invalidateClass | invalidateResource | invalidateFunction => rfl

end Machine

namespace Request

variable {L : Library} {c : Compiled} {m : Machine Host} {depth : Nat} {requests pre : List Request}

theorem Undisturbed.transparent_runAll (h : Undisturbed depth requests m) (hm : m.Transparent L c)
    (hp : pre <+: requests) : (runAll (Node.resolver depth) pre m).Transparent L c := by
  induction pre using List.reverseRecOn with
  | nil => exact hm
  | append_singleton pre q ih =>
    have hne := h pre q hp
    have hrun := (ih ((List.prefix_append pre [q]).trans hp)).run hne
    rw [runAll, List.foldl_append]
    change (q.run (Node.resolver depth) (runAll (Node.resolver depth) pre m)).2.Transparent L c
    rw [run_extends (Node.resolver_extends_watcher depth) hne]
    exact hrun.2

/-- The caches of a node are transparent: in any sequence of requests that come to an end, and in none
of which a class is asked for while it is being loaded, each reply is that which a node that has just
been made gives to the same request. That one gives no other reply at any depth, and this one from
some depth on, as it has to resolve what the other one found in its caches. -/
theorem reply_eq_first {files : Files} {certname : String} {facts : Facts} {hierarchy : Hierarchy}
    {loader : Loader} {node : Node} {world : World}
    (hnode : Node.create files certname facts hierarchy loader = .ok node)
    (hsteady : loader.Steady world) (h : Undisturbed depth requests (.start ⟨node, world⟩))
    {q : Request} (hq : pre ++ [q] <+: requests) :
    let first (d : Nat) := (q.run (Node.resolver d) (.start ⟨node, world⟩)).1
    let reply := (q.run (Node.resolver depth)
      (runAll (Node.resolver depth) pre (.start ⟨node, world⟩))).1
    (∃ d₀, ∀ d ≥ d₀, first d = reply) ∧ ∀ d, first d ≠ .error .exhausted → first d = reply := by
  intro first reply
  have hne := h pre q hq
  have hsound := h.transparent_runAll (Machine.transparent_of_create hnode hsteady)
    ((List.prefix_append pre [q]).trans hq)
  have hreply : reply = (q.run (Node.watcher depth)
      (runAll (Node.resolver depth) pre (.start ⟨node, world⟩))).1 :=
    congrArg Prod.fst (run_extends (Node.resolver_extends_watcher depth) hne)
  rw [← hreply] at hne
  have hfirst : ∀ᶠ d in atTop, first d = reply := by
    filter_upwards [(hsound.run (h pre q hq)).1] with d hd
    rw [← hreply] at hd
    exact (Machine.reply_of_create hnode hsteady (hd ▸ hne)).trans hd
  obtain ⟨d₀, hd₀⟩ := eventually_atTop.mp hfirst
  refine ⟨⟨d₀, hd₀⟩, fun d hd => ?_⟩
  have hdeeper := run_extends (Node.resolver_extends (Nat.le_max_left d d₀)) hd
  exact (congrArg Prod.fst hdeeper).symm.trans (hd₀ _ (Nat.le_max_right d d₀))

/-- Whether there was enough depth for a reply. -/
def ended : Except Fault Reply → Bool
  | .error .exhausted => false
  | _ => true

theorem undisturbed_of_ended (h : ∀ i (hi : i < requests.length), ended ((requests[i].run
    (Node.watcher depth) (runAll (Node.resolver depth) (requests.take i) m)).1) = true) :
    Undisturbed depth requests m := by
  rintro pre q ⟨rest, rfl⟩ he
  have hq := h pre.length (by simp)
  simp [he, ended] at hq

/-- A class is asked for after the one it inherits, thrown out of the cache and asked for again. -/
def goingBack : List Request :=
  [.resolveClass "base", .resolveClass "child", .invalidateClass "child", .resolveClass "child"]

set_option maxRecDepth 10000 in
theorem goingBack_undisturbed : Undisturbed 3 goingBack Machine.unwritten :=
  undisturbed_of_ended (by decide +kernel)

/-- What a reply shows of the variable `a`. -/
def valueOfA : Except Fault Reply → Option String
  | .ok (.shown i) => Machine.textOf (.ok i)
  | _ => none

set_option maxRecDepth 10000 in
theorem goingBack_reply :
    let first (d : Nat) := ((resolveClass "child").run (Node.resolver d) Machine.unwritten).1
    let reply := ((resolveClass "child").run (Node.resolver 3)
      (runAll (Node.resolver 3) (goingBack.take 3) Machine.unwritten)).1
    Node.create (.empty [] 0) "n0" [] ⟨5, "data", none, [Fleet.commonLevel]⟩ .shelf =
        .ok Machine.unwritten.host.node ∧
      Loader.shelf.Steady Machine.unwritten.host.world ∧
      Undisturbed 3 goingBack Machine.unwritten ∧
      (goingBack.take 3 ++ [resolveClass "child"] <+: goingBack) ∧
      ((∃ d₀, ∀ d ≥ d₀, first d = reply) ∧ ∀ d, first d ≠ .error .exhausted → first d = reply) ∧
      valueOfA reply = some "old" := by
  intro first reply
  have hnode : Node.create (.empty [] 0) "n0" [] ⟨5, "data", none, [Fleet.commonLevel]⟩ .shelf =
      .ok (Fleet.newcomer "n0") := rfl
  have hsteady : Loader.shelf.Steady Machine.unwritten.host.world := Loader.steady_shelf _
  exact ⟨hnode, hsteady, goingBack_undisturbed, List.prefix_rfl,
    reply_eq_first hnode hsteady goingBack_undisturbed List.prefix_rfl, by decide +kernel⟩

end Request

end Cascade
