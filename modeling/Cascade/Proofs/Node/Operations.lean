import Cascade.Proofs.Node.Failures
import Cascade.Proofs.Node.Masks
import Cascade.Proofs.Node.Transparency
/-!
All that can be done with a node from outside, and what can be seen of it. Two machines whose nodes
differ by a mask reply alike to any operations, as long as none of them looks at what is masked.
-/
namespace Cascade

/-- What can be read off a node. -/
structure NodeView where
  identity : Identity
  compiled : Compiled
  global? : String → Option Value
  lookupGlobal : String → GlobalLookup
  source? : SourceKind → String → Option Nat
  resolvedClasses : List String
  summary : String

def Node.view (n : Node) : NodeView :=
  { identity := n.identity, compiled := n.compiled, global? := n.global?,
    lookupGlobal := n.lookupGlobal, source? := n.source?, resolvedClasses := n.resolvedClasses,
    summary := n.summary }

theorem NodeMask.view_node (M : NodeMask) (n : Node) : (M.node n).view = n.view := by
  have hclasses : (M.node n).classes.keys = n.classes.keys := SingleFlight.keys_graft _
  have hresources : (M.node n).resources.keys = n.resources.keys := SingleFlight.keys_graft _
  unfold Node.view Node.resolvedClasses Node.summary
  rw [hclasses, hresources]
  rfl

/-- What a node is bound to. -/
inductive Rebinding
  | facts (f : Facts)
  | hierarchy (h : Hierarchy)

namespace Rebinding

/-- Replaces the facts or the hierarchy, and binds nothing. -/
def put : Rebinding → Node → Node
  | facts f, n => { n with facts := f }
  | hierarchy h, n => { n with hierarchy := h }

/-- Whether both replace the same. -/
def alike : Rebinding → Rebinding → Bool
  | facts _, facts _ | hierarchy _, hierarchy _ => true
  | _, _ => false

end Rebinding

/-- What can be asked of a node. -/
inductive NodeOperation
  | look
  | request (q : Request)
  | dumpClass (name : String)
  | dumpResource (typeName title : String)
  | includedClasses
  | registerSource (kind : SourceKind) (name : String) (level : Nat)
  | assignClass (name : String) (level : Nat)
  | removeClass (name : String) (level : Nat)
  | setProperty (name property : String) (v : Value) (level : Nat)
  | removeProperty (name property : String) (level : Nat)
  /-- Writes to the hierarchy of the node that pass it by. -/
  | assign (level : Nat) (key : String) (v : Value)
  | assignRaw (level : Nat) (key : String) (v : Value)
  | erase (level : Nat) (key : String)
  | rebind (r : Rebinding)
  | invalidateAll
  /-- Whatever else happens to the files, and to all that nodes share. -/
  | outside (change : World → World)

inductive NodeReply
  | view (v : NodeView)
  | request (r : Except Fault Reply)
  | dump (r : Except Fault InstanceDump)
  | listed (classes : Table String Nat)
  | wrote (r : Except NodeError Unit)
  | removed (r : Except NodeError Bool)
  | value (r : Except NodeError (Option Value))
  | bound (r : Except HierarchyError Unit)
  | done

namespace Machine

def withNode (m : Machine Host) (node : Node) : Machine Host :=
  { m with host := { m.host with node } }

/-- Replaces the facts or the hierarchy of the node. -/
def rebind (m : Machine Host) : Rebinding → Except HierarchyError Unit × Machine Host
  | .facts f =>
    let (result, node) := m.host.node.setFacts m.host.world.files f
    (result, m.withNode node)
  | .hierarchy h =>
    let (result, node) := m.host.node.setHierarchy m.host.world.files h
    (result, m.withNode node)

def invalidateAll (m : Machine Host) : Except HierarchyError Unit × Machine Host :=
  match m.host.node.invalidateAll m.host.world.files with
  | .ok node => (.ok (), m.withNode node)
  | .error e => (.error e, m)

variable {m : Machine Host}

theorem invalidateAll_of_error {e : HierarchyError}
    (h : m.host.node.invalidateAll m.host.world.files = .error e) :
    m.invalidateAll = (.error e, m) := by
  rw [invalidateAll, h]

theorem invalidateAll_of_ok {node : Node}
    (h : m.host.node.invalidateAll m.host.world.files = .ok node) :
    m.invalidateAll = (.ok (), m.withNode node) := by
  rw [invalidateAll, h]

/-- To replace something is to put it there and to bind the node anew; it stays there in any case. -/
theorem rebind_eq (m : Machine Host) (r : Rebinding) :
    m.rebind r = (m.withNode (r.put m.host.node)).invalidateAll := by
  cases r with
  | facts f =>
    unfold rebind Node.setFacts invalidateAll
    dsimp only [withNode, Rebinding.put]
    cases Node.invalidateAll { m.host.node with facts := f } m.host.world.files <;> rfl
  | hierarchy h =>
    unfold rebind Node.setHierarchy invalidateAll
    dsimp only [withNode, Rebinding.put]
    cases Node.invalidateAll { m.host.node with hierarchy := h } m.host.world.files <;> rfl

end Machine

namespace NodeOperation

variable (d : Disk) (depth : Nat)

/-- An operation on the node of a machine, with what comes back. -/
def run (m : Machine Host) : NodeOperation → NodeReply × Machine Host
  | look => (.view m.host.node.view, m)
  | request q =>
    let (reply, m) := q.run (Node.resolver depth) m
    (.request reply, m)
  | dumpClass name =>
    let (result, m) := (Node.dumpClass (Node.resolver depth) name).run m
    (.dump result, m)
  | dumpResource typeName title =>
    let (result, m) := (Node.dumpResource (Node.resolver depth) typeName title).run m
    (.dump result, m)
  | includedClasses =>
    let (classes, node) := m.host.node.includedClasses
    (.listed classes, m.withNode node)
  | registerSource kind name level =>
    (.done, m.withNode (m.host.node.registerSource kind name level))
  | assignClass name level =>
    let (result, m) := (Writing.assignClass d name level).run m
    (.wrote result, m)
  | removeClass name level =>
    let (result, m) := (Writing.removeClass d name level).run m
    (.removed result, m)
  | setProperty name property v level =>
    let (result, m) := (Writing.setProperty d name property v level).run m
    (.wrote result, m)
  | removeProperty name property level =>
    let (result, m) := (Writing.removeProperty d name property level).run m
    (.value result, m)
  | assign level key v =>
    let (result, m) := (Writing.onHierarchy (Storing.assign d level key v)).run m
    (.wrote result, m)
  | assignRaw level key v =>
    let (result, m) := (Writing.onHierarchy (Storing.assignRaw d level key v)).run m
    (.wrote result, m)
  | erase level key =>
    let (result, m) := (Writing.onHierarchy (Storing.erase d level key)).run m
    (.value result, m)
  | rebind r =>
    let (result, m) := m.rebind r
    (.bound result, m)
  | invalidateAll =>
    let (result, m) := m.invalidateAll
    (.bound result, m)
  | outside change => (.done, { m with host := { m.host with world := change m.host.world } })

/-- Whether an operation binds the hierarchy of the node anew. -/
def binds : NodeOperation → Bool
  | rebind _ | invalidateAll => true
  | _ => false

/-- What comes back from operations, one after another. -/
def replies : List NodeOperation → Machine Host → List NodeReply
  | [], _ => []
  | o :: ops, m => (o.run d depth m).1 :: replies ops (o.run d depth m).2

end NodeOperation

/-- The machines that operations lead to from a node that has just been made. -/
inductive Machine.Reached (d : Disk) (depth : Nat) : Machine Host → Prop
  | create {m : Machine Host} {certname : String} {facts : Facts} {hierarchy : Hierarchy}
      {loader : Loader} {node : Node} (key : String)
      (h : Node.create m.host.world.files certname facts hierarchy loader = .ok node) :
      Reached d depth (m.withNode { node with classListKey := key })
  | operate {m : Machine Host} (o : NodeOperation) :
      Reached d depth m → Reached d depth (o.run d depth m).2

variable {M : NodeMask} {d : Disk} {depth : Nat} {m : Machine Host}

theorem Overlooks.request {r : Resolver Host} (hr : r.Overlooks M.mask) (q : Request)
    (hm : M.mask.Good m.host) : q.run r (M.mask.machine m) =
      ((q.run r m).1, M.mask.machine (q.run r m).2) ∧ M.mask.Good (q.run r m).2.host := by
  cases q with
  | resolveClass name =>
    obtain ⟨hrun, hgood⟩ := hr.resolveClass name m hm
    refine ⟨?_, hgood⟩
    simp only [Request.run, hrun]
    rfl
  | resolveResource typeName title =>
    obtain ⟨hrun, hgood⟩ := Node.overlooks_resolveResource hr typeName title m hm
    refine ⟨?_, hgood⟩
    simp only [Request.run, hrun]
    rfl
  | resolveFunction name =>
    obtain ⟨hrun, hgood⟩ := hr.resolveFunction name m hm
    refine ⟨?_, hgood⟩
    simp only [Request.run, hrun]
  | invalidateClass name =>
    exact ⟨Prod.ext rfl (m.invalidateClass_machine name), Machine.good_invalidateClass hm name⟩
  | invalidateResource typeName title =>
    refine ⟨Prod.ext rfl ?_, M.good_of_eq hm rfl rfl rfl
      ⟨hm.2.classes, hm.2.resources.invalidate _, hm.2.functions⟩⟩
    exact congrArg (fun resources => m.withNode { M.node m.host.node with resources := resources })
      (SingleFlight.invalidate_graft m.host.node.resources _)
  | invalidateFunction name =>
    refine ⟨Prod.ext rfl ?_, M.good_of_eq hm rfl rfl rfl
      ⟨hm.2.classes, hm.2.resources, hm.2.functions.invalidate _⟩⟩
    exact congrArg (fun functions => m.withNode { M.node m.host.node with functions := functions })
      (SingleFlight.invalidate_graft m.host.node.functions _)

theorem NodeMask.includedClasses_node (M : NodeMask) (n : Node) :
    (M.node n).includedClasses = (n.includedClasses.1, M.node n.includedClasses.2) :=
  Prod.ext rfl (List.foldl_hom M.node fun _ _ => rfl)

/-- To list classes changes nothing but the sources. -/
theorem Node.exists_of_includedClasses (n : Node) :
    ∃ sources, n.includedClasses.2 = { n with sources := sources } := by
  have hfold : ∀ (classes : Table String Nat) (n : Node), ∃ sources,
      classes.foldl (fun n c => n.registerSource .hostClass c.1 c.2) n =
        { n with sources := sources } := by
    intro classes
    induction classes with
    | nil => exact fun n => ⟨n.sources, rfl⟩
    | cons c classes ih =>
      intro n
      obtain ⟨sources, h⟩ := ih (n.registerSource .hostClass c.1 c.2)
      exact ⟨sources, h⟩
  exact hfold n.listedClasses n

namespace NodeMask

/-- A node is bound the same with the mask as without it. -/
def Binds (M : NodeMask) (n : Node) (files : Files) : Prop :=
  Compiled.compile files (M.hierarchy n.hierarchy) (M.facts n.facts) n.identity.facts =
    Compiled.compile files n.hierarchy n.facts n.identity.facts

theorem Binds.invalidateAll {n : Node} {files : Files} (h : M.Binds n files) :
    (M.node n).invalidateAll files = (n.invalidateAll files).map M.node := by
  unfold Node.invalidateAll
  change (Compiled.compile files (M.hierarchy n.hierarchy) (M.facts n.facts) n.identity.facts >>=
    _) = _
  rw [h]
  cases Compiled.compile files n.hierarchy n.facts n.identity.facts <;> rfl

theorem good_invalidateAll (hm : M.mask.Good m.host) : M.mask.Good m.invalidateAll.2.host := by
  unfold Machine.invalidateAll Node.invalidateAll
  cases Compiled.compile m.host.world.files m.host.node.hierarchy m.host.node.facts
      m.host.node.identity.facts with
  | error e => exact hm
  | ok c =>
    exact M.good_of_eq hm rfl rfl rfl
      ⟨hm.2.classes.clear, hm.2.resources.clear, hm.2.functions.clear⟩

theorem Binds.machine (h : M.Binds m.host.node m.host.world.files) :
    (M.mask.machine m).invalidateAll =
      (m.invalidateAll.1, M.mask.machine m.invalidateAll.2) := by
  have hnode : (M.node m.host.node).invalidateAll m.host.world.files =
      (m.host.node.invalidateAll m.host.world.files).map M.node := h.invalidateAll
  cases hm : m.host.node.invalidateAll m.host.world.files with
  | error e =>
    rw [hm] at hnode
    rw [Machine.invalidateAll_of_error hm,
      Machine.invalidateAll_of_error (m := M.mask.machine m) hnode]
  | ok node =>
    rw [hm] at hnode
    rw [Machine.invalidateAll_of_ok hm, Machine.invalidateAll_of_ok (m := M.mask.machine m) hnode]
    rfl

/-- What an operation is to leave alone if it is not to notice the mask. -/
def Allows (M : NodeMask) (m : Machine Host) : NodeOperation → Prop
  | .rebind r => r.put (M.node m.host.node) = M.node (r.put m.host.node) ∧
      M.mask.Good (m.withNode (r.put m.host.node)).host ∧
      M.Binds (r.put m.host.node) m.host.world.files
  | .invalidateAll => M.Binds m.host.node m.host.world.files
  | _ => True

theorem allows_of_not_binds {o : NodeOperation} (h : o.binds = false) : M.Allows m o := by
  cases o <;> trivial

end NodeMask

namespace NodeOperation

theorem of_overlooks {ε α : Type} {x : ExceptT ε (StateM (Machine Host)) α}
    (h : Overlooks M.mask x x) (hm : M.mask.Good m.host) (reply : Except ε α → NodeReply) :
    (reply (x.run (M.mask.machine m)).1, (x.run (M.mask.machine m)).2) =
      (reply (x.run m).1, M.mask.machine (x.run m).2) ∧ M.mask.Good (x.run m).2.host := by
  obtain ⟨hrun, hgood⟩ := h m hm
  rw [hrun]
  exact ⟨rfl, hgood⟩

/-- An operation does the same with a mask that it is not to notice. -/
theorem run_machine (d : Disk) (depth : Nat) {o : NodeOperation} (hm : M.mask.Good m.host)
    (ho : M.Allows m o) :
    o.run d depth (M.mask.machine m) =
        ((o.run d depth m).1, M.mask.machine (o.run d depth m).2) ∧
      M.mask.Good (o.run d depth m).2.host := by
  have hr := Node.resolver_overlooks M depth
  cases o with
  | look => exact ⟨Prod.ext (congrArg NodeReply.view (M.view_node m.host.node)) rfl, hm⟩
  | request q =>
    obtain ⟨hrun, hgood⟩ := Overlooks.request hr q hm
    refine ⟨?_, hgood⟩
    simp only [run, hrun]
  | dumpClass name => exact of_overlooks (Node.overlooks_dumpClass hr name) hm .dump
  | dumpResource typeName title =>
    exact of_overlooks (Node.overlooks_dumpResource hr typeName title) hm .dump
  | includedClasses =>
    obtain ⟨sources, hsources⟩ := m.host.node.exists_of_includedClasses
    refine ⟨?_, ?_⟩
    · have hincluded : (M.mask.machine m).host.node.includedClasses = _ :=
        M.includedClasses_node m.host.node
      simp only [run, hincluded]
      rfl
    · change M.mask.Good (m.withNode m.host.node.includedClasses.2).host
      rw [hsources]
      exact M.good_of_eq hm rfl rfl rfl ⟨hm.2.classes, hm.2.resources, hm.2.functions⟩
  | registerSource kind name level =>
    exact ⟨rfl, M.good_of_eq hm rfl rfl rfl ⟨hm.2.classes, hm.2.resources, hm.2.functions⟩⟩
  | assignClass name level =>
    exact of_overlooks (Writing.overlooks_assignClass d name level) hm .wrote
  | removeClass name level =>
    exact of_overlooks (Writing.overlooks_removeClass d name level) hm .removed
  | setProperty name property v level =>
    exact of_overlooks (Writing.overlooks_setProperty d name property v level) hm .wrote
  | removeProperty name property level =>
    exact of_overlooks (Writing.overlooks_removeProperty d name property level) hm .value
  | assign level key v => exact of_overlooks (Writing.overlooks_onHierarchy _) hm .wrote
  | assignRaw level key v => exact of_overlooks (Writing.overlooks_onHierarchy _) hm .wrote
  | erase level key => exact of_overlooks (Writing.overlooks_onHierarchy _) hm .value
  | rebind r =>
    obtain ⟨hput, hgood, hbinds⟩ := ho
    have hrun : (M.mask.machine m).rebind r =
        ((m.rebind r).1, M.mask.machine (m.rebind r).2) := by
      rw [Machine.rebind_eq, Machine.rebind_eq]
      change (m.withNode (r.put (M.node m.host.node))).invalidateAll = _
      rw [hput]
      exact NodeMask.Binds.machine (m := m.withNode (r.put m.host.node)) hbinds
    refine ⟨?_, ?_⟩
    · simp only [run, hrun]
    · change M.mask.Good (m.rebind r).2.host
      rw [Machine.rebind_eq]
      exact M.good_invalidateAll hgood
  | invalidateAll =>
    refine ⟨?_, M.good_invalidateAll hm⟩
    simp only [run, NodeMask.Binds.machine ho]
  | outside change => exact ⟨rfl, hm⟩

end NodeOperation

/-- A node whose caches go on where those of another one have come to. -/
def NodeMask.behind (n : Node) (h : n.Regular) : NodeMask where
  facts := id
  hierarchy := id
  classes := n.classes.flights
  resources := n.resources.flights
  functions := n.functions.flights
  Fits _ _ i := i = n.identity
  classes_counted := h.classes.counted
  resources_counted := h.resources.counted
  functions_counted := h.functions.counted

theorem NodeMask.allows_behind {n : Node} {h : n.Regular} (hm : (behind n h).mask.Good m.host)
    (o : NodeOperation) : (behind n h).Allows m o := by
  cases o with
  | rebind r =>
    cases r with
    | facts f =>
      exact ⟨rfl, ⟨hm.1, hm.2.classes, hm.2.resources, hm.2.functions⟩, rfl⟩
    | hierarchy h =>
      exact ⟨rfl, ⟨hm.1, hm.2.classes, hm.2.resources, hm.2.functions⟩, rfl⟩
  | invalidateAll => exact rfl
  | _ => trivial

/-- Whatever is done with a node, it goes on alike behind another one. -/
theorem NodeOperation.replies_behind {n : Node} {h : n.Regular} (ops : List NodeOperation)
    (hm : (NodeMask.behind n h).mask.Good m.host) :
    replies d depth ops ((NodeMask.behind n h).mask.machine m) = replies d depth ops m := by
  induction ops generalizing m with
  | nil => rfl
  | cons o ops ih =>
    obtain ⟨hrun, hgood⟩ := run_machine d depth hm (NodeMask.allows_behind hm o)
    rw [replies, replies, hrun, ih hgood]

theorem Identity.certname_ofCertname (name : String) :
    (Identity.ofCertname name).certname = name := by
  unfold Identity.ofCertname
  split <;> rfl

/-- A node that can be reached has the identity of its name and caches as steps leave them. -/
theorem Machine.Reached.regular (h : m.Reached d depth) : m.host.node.Regular ∧
    Identity.ofCertname m.host.node.identity.certname = m.host.node.identity := by
  induction h with
  | create key h =>
    obtain ⟨compiled, -, rfl⟩ := Node.exists_of_create h
    exact ⟨⟨.empty, .empty, .empty⟩, congrArg _ (Identity.certname_ofCertname _)⟩
  | @operate m o _ ih =>
    have hm : (NodeMask.behind m.host.node ih.1).mask.Good m.host := ⟨rfl, ih.1⟩
    obtain ⟨hidentity, hregular⟩ := (NodeOperation.run_machine d depth hm
      (NodeMask.allows_behind hm o)).2
    refine ⟨hregular, ?_⟩
    have hsame : (o.run d depth m).2.host.node.identity = m.host.node.identity := hidentity
    rw [hsame]
    exact ih.2

end Cascade
