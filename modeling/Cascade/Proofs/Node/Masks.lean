import Cascade.Node.Dump
import Cascade.Node.Write
import Cascade.Proofs.Eval.Mask
import Cascade.Proofs.Node.Titles
import Cascade.Proofs.SingleFlight.Graft
/-!
What a node does not notice of itself. Its facts and its hierarchy are only looked at when the hierarchy
is bound, so until then others can stand in their place; and its caches can have had other flights
before. A mask makes such a change, and whatever the node is asked for overlooks it.
-/
namespace Cascade

open SingleFlight (Past)

/-- The caches of a node are as steps leave them. -/
structure Node.Regular (n : Node) : Prop where
  classes : n.classes.Regular
  resources : n.resources.Regular
  functions : n.functions.Regular

/-- Facts and a hierarchy that a node is not bound to, and flights that its caches have not had. -/
structure NodeMask where
  facts : Facts → Facts
  hierarchy : Hierarchy → Hierarchy
  classes : Past Nat EvalError
  resources : Past Nat EvalError
  functions : Past LoadedFunction EvalError
  /-- The nodes that a mask is made for, told by what no request changes. -/
  Fits : Facts → Hierarchy → Identity → Prop
  classes_counted : classes.Counted
  resources_counted : resources.Counted
  functions_counted : functions.Counted

namespace NodeMask

variable (M : NodeMask)

def node (n : Node) : Node :=
  { n with
    facts := M.facts n.facts
    hierarchy := M.hierarchy n.hierarchy
    classes := n.classes.graft M.classes
    resources := n.resources.graft M.resources
    functions := n.functions.graft M.functions }

def mask : Mask Host where
  map h := { h with node := M.node h.node }
  Good h := M.Fits h.node.facts h.node.hierarchy h.node.identity ∧ h.node.Regular

end NodeMask

/-- A cache that a mask gives a past. -/
structure CacheOf.Masked {κ ν : Type} [DecidableEq κ] (c : CacheOf κ ν) (M : NodeMask)
    (past : Past ν EvalError) : Prop where
  counted : past.Counted
  get (n : Node) : c.get (M.node n) = (c.get n).graft past
  set (n : Node) (cache : Cache κ ν) : c.set (M.node n) (cache.graft past) = M.node (c.set n cache)
  regular {h : Host} : M.mask.Good h → (c.get h.node).Regular
  good {h : Host} {cache : Cache κ ν} : M.mask.Good h → cache.Regular →
    M.mask.Good { h with node := c.set h.node cache }

namespace CacheOf

variable (M : NodeMask)

theorem masked_classes : classes.Masked M M.classes where
  counted := M.classes_counted
  get _ := rfl
  set _ _ := rfl
  regular h := h.2.classes
  good h hc := ⟨h.1, hc, h.2.resources, h.2.functions⟩

theorem masked_resources : resources.Masked M M.resources where
  counted := M.resources_counted
  get _ := rfl
  set _ _ := rfl
  regular h := h.2.resources
  good h hc := ⟨h.1, h.2.classes, hc, h.2.functions⟩

theorem masked_functions : functions.Masked M M.functions where
  counted := M.functions_counted
  get _ := rfl
  set _ _ := rfl
  regular h := h.2.functions
  good h hc := ⟨h.1, h.2.classes, h.2.resources, hc⟩

end CacheOf

variable {M : NodeMask}

namespace CacheOf.Masked

variable {κ ν : Type} [DecidableEq κ] {c : CacheOf κ ν} {past : Past ν EvalError}

theorem put_machine (hc : c.Masked M past) (m : Machine Host) (cache : Cache κ ν) :
    c.put (M.mask.machine m) (cache.graft past) = M.mask.machine (c.put m cache) :=
  congrArg (fun node => { m with host := { m.host with node := node } }) (hc.set m.host.node cache)

theorem update (hc : c.Masked M past) {change change' : Cache κ ν → Cache κ ν}
    (h : ∀ cache : Cache κ ν, cache.Regular →
      change' (cache.graft past) = (change cache).graft past ∧ (change cache).Regular) :
    Overlooks M.mask (c.update change') (c.update change) := by
  intro m hm
  obtain ⟨hchange, hregular⟩ := h _ (hc.regular hm)
  refine ⟨?_, hc.good hm hregular⟩
  rw [CacheOf.update, CacheOf.update, run_step, run_step, Mask.host_machine]
  change (_, c.put (M.mask.machine m) (change' (c.get (M.node m.host.node)))) = _
  rw [hc.get, hchange, hc.put_machine]

/-- A load does not notice the mask if what it does in between does not. -/
theorem getOrLoad (hc : c.Masked M past) (key : κ) (cycle : EvalError)
    {load load' : (ν → Act Host Unit) → Act Host ν}
    (h : ∀ publish publish', (∀ v, Overlooks M.mask (publish' v) (publish v)) →
      Overlooks M.mask (load' publish') (load publish)) :
    Overlooks M.mask (c.getOrLoad key cycle load') (c.getOrLoad key cycle load) := by
  intro m hm
  have hclaim := SingleFlight.claim_graft (c.get m.host.node) hc.counted key
  have hgood : M.mask.Good (c.put m ((c.get m.host.node).claim () key).2).host :=
    hc.good hm ((hc.regular hm).claim key)
  have hstep : (c.step fun cache => cache.claim () key).run (M.mask.machine m) =
      (.ok (((c.get m.host.node).claim () key).1.move past.length),
        M.mask.machine (c.put m ((c.get m.host.node).claim () key).2)) := by
    rw [run_step, ← hc.put_machine]
    change (Except.ok ((c.get (M.node m.host.node)).claim () key).1,
      c.put (M.mask.machine m) ((c.get (M.node m.host.node)).claim () key).2) = _
    rw [hc.get, hclaim]
  rw [CacheOf.getOrLoad, CacheOf.getOrLoad, run_bind, run_bind, hstep, run_step]
  -- The two flights differ in their numbers, so what follows is not one program run on two machines:
  -- each step of the one goes with a step of the other.
  revert hgood
  generalize c.put m ((c.get m.host.node).claim () key).2 = m'
  intro hgood
  rcases ((c.get m.host.node).claim () key).1 with v | (_ | v) | f | f
  · exact ⟨rfl, hgood⟩
  · exact ⟨rfl, hgood⟩
  · exact ⟨rfl, hgood⟩
  · exact ⟨rfl, hgood⟩
  · refine Overlooks.bind (.attempt (h _ _ fun v => hc.update fun cache hr => ?_)) (fun o => ?_)
      m' hgood
    · exact ⟨SingleFlight.updateFlight_graft cache hc.counted f _, hr.updateFlight f _⟩
    · rcases o with (e | _) | v
      · refine .bind (hc.update fun cache hr => ?_) fun _ => .throw _
        exact ⟨SingleFlight.settle_graft cache hc.counted key f _, hr.settle key f _⟩
      · refine .bind (hc.update fun cache hr => ?_) fun _ => .throw _
        rw [SingleFlight.detach_graft]
        exact ⟨SingleFlight.updateFlight_graft _ hc.counted f _, (hr.detach key f).updateFlight f _⟩
      · refine .bind (hc.update fun cache hr => ?_) fun _ => .pure _
        exact ⟨SingleFlight.settle_graft cache hc.counted key f _, hr.settle key f _⟩

end CacheOf.Masked

namespace Node

variable {r : Resolver Host}

theorem overlooks_loadDefinition (kind : DefinitionKind) (name : String) :
    Overlooks M.mask (loadDefinition kind name) (loadDefinition kind name) := by
  intro m hm
  rw [run_loadDefinition, run_loadDefinition]
  exact ⟨rfl, hm⟩

theorem overlooks_buildInstance (hr : r.Overlooks M.mask) {publish publish' : Nat → Act Host Unit}
    (hpublish : ∀ i, Overlooks M.mask (publish' i) (publish i)) (d : Definition)
    (title : Option String) (seeds : Option (Table String Seed)) :
    Overlooks M.mask (buildInstance r publish' d title seeds) (buildInstance r publish d title seeds) :=
  .bind (fun _ hm => ⟨rfl, hm⟩) fun i => .bind (hpublish i) fun _ =>
    .bind (hr.resolveInstance i) fun _ => .pure i

theorem overlooks_loadInstance (hr : r.Overlooks M.mask) (kind : DefinitionKind)
    (name label : String) (title : Option String) (seeds : Compiled → Option (Table String Seed))
    {publish publish' : Nat → Act Host Unit}
    (hpublish : ∀ i, Overlooks M.mask (publish' i) (publish i)) :
    Overlooks M.mask (loadInstance r kind name label title seeds publish')
      (loadInstance r kind name label title seeds publish) :=
  .mapError _ (.bind (overlooks_loadDefinition kind name) fun d => .look fun m _ =>
    overlooks_buildInstance hr hpublish d title (seeds m.host.node.compiled))

theorem overlooks_resolveClass (hr : r.Overlooks M.mask) (name : String) :
    Overlooks M.mask (resolveClass r name) (resolveClass r name) := by
  rw [resolveClass_eq]
  exact (CacheOf.masked_classes M).getOrLoad _ _ fun _ _ => overlooks_loadInstance hr _ _ _ _ _

theorem overlooks_resolveResource (hr : r.Overlooks M.mask) (typeName title : String) :
    Overlooks M.mask (resolveResource r typeName title) (resolveResource r typeName title) := by
  rw [resolveResource_eq]
  exact (CacheOf.masked_resources M).getOrLoad _ _ fun _ _ => overlooks_loadInstance hr _ _ _ _ _

theorem overlooks_resolveFunction (name : String) :
    Overlooks M.mask (resolveFunction name) (resolveFunction name) := by
  unfold resolveFunction
  refine .bind (.attempt ((CacheOf.masked_functions M).getOrLoad _ _ fun _ _ _ => ?_)) fun found => ?_
  · exact .bind (overlooks_loadDefinition _ _) fun d => .bind (fun _ hm => ⟨rfl, hm⟩) fun serial =>
      .pure _
  · rcases found with (e | _) | f
    · cases e <;> first | exact .pure _ | exact .throw _
    · exact .throw _
    · exact .pure _

theorem outOfDepth_overlooks (M : NodeMask) : outOfDepth.Overlooks M.mask where
  resolveClass _ := .throw _
  resolveFunction _ := .throw _
  invoke _ _ := .throw _
  global? _ := rfl
  lookupGlobal _ := rfl
  registerSource _ _ _ hm := ⟨rfl, hm.1, hm.2.classes, hm.2.resources, hm.2.functions⟩

/-- Requests do not notice a mask, however deep they nest. -/
theorem resolver_overlooks (M : NodeMask) (depth : Nat) : (resolver depth).Overlooks M.mask := by
  induction depth with
  | zero => exact outOfDepth_overlooks M
  | succ depth ih =>
    exact { outOfDepth_overlooks M with
      resolveClass := overlooks_resolveClass ih
      resolveFunction := fun name => .bind (overlooks_resolveFunction name) fun _ => .pure _
      invoke := ih.invokeFunction }

theorem overlooks_instanceAt (i : Nat) :
    Overlooks M.mask (instanceAt i) (instanceAt i) := by
  refine .look fun m _ => ?_
  have hsame : (M.mask.machine m).instance? i = m.instance? i := rfl
  rw [hsame]
  cases m.instance? i with
  | none => exact .throw _
  | some inst => exact .pure inst

theorem overlooks_markPublic (i : Nat) : Overlooks M.mask (markPublic i) (markPublic i) :=
  .modify fun m hm => ⟨M.mask.updateInstance_machine m _ _, by rwa [Machine.host_updateInstance]⟩

variable (hr : r.Overlooks M.mask)
include hr

theorem overlooks_dumpClass (name : String) :
    Overlooks M.mask (dumpClass r name) (dumpClass r name) :=
  .bind (hr.resolveClass name) fun i => .bind (overlooks_markPublic i) fun _ =>
    .bind (overlooks_instanceAt i) fun _ => .look fun _ _ => .pure _

theorem overlooks_dumpResource (typeName title : String) :
    Overlooks M.mask (dumpResource r typeName title) (dumpResource r typeName title) :=
  .bind (overlooks_resolveResource hr typeName title) fun i =>
    .bind (overlooks_markPublic i) fun _ => .bind (overlooks_instanceAt i) fun _ => .pure _

end Node

/-- Whatever of a node a mask does not look at may change. -/
theorem NodeMask.good_of_eq {h h' : Host} (hm : M.mask.Good h)
    (hfacts : h'.node.facts = h.node.facts) (hhierarchy : h'.node.hierarchy = h.node.hierarchy)
    (hidentity : h'.node.identity = h.node.identity) (hregular : h'.node.Regular) :
    M.mask.Good h' := by
  refine ⟨?_, hregular⟩
  rw [hfacts, hhierarchy, hidentity]
  exact hm.1

theorem forgetClasses_graft (past : Past Nat EvalError) (parentOf : Nat → Option String)
    (steps : Nat) (c : Cache String Nat) (name : String) :
    forgetClasses parentOf steps (c.graft past) name =
      (forgetClasses parentOf steps c name).graft past := by
  induction steps generalizing c name with
  | zero => rfl
  | succ steps ih =>
    rw [forgetClasses, forgetClasses, SingleFlight.get?_graft, SingleFlight.invalidate_graft]
    cases c.get? name with
    | none => rfl
    | some i =>
      dsimp only
      cases parentOf i with
      | none => rfl
      | some parent => exact ih _ _

theorem regular_forgetClasses (parentOf : Nat → Option String) (steps : Nat)
    {c : Cache String Nat} (h : c.Regular) (name : String) :
    (forgetClasses parentOf steps c name).Regular := by
  induction steps generalizing c name with
  | zero => exact h
  | succ steps ih =>
    unfold forgetClasses
    cases c.get? name with
    | none => exact h.invalidate name
    | some i =>
      dsimp only
      cases parentOf i with
      | none => exact h.invalidate name
      | some parent => exact ih (h.invalidate name) _

theorem Machine.invalidateClass_machine (m : Machine Host) (name : String) :
    (M.mask.machine m).invalidateClass name = M.mask.machine (m.invalidateClass name) := by
  have hlength : (M.node m.host.node).classes.slots.length = m.host.node.classes.slots.length :=
    List.length_map _
  let parentOf (i : Nat) : Option String := (m.instance? i).bind (·.parent)
  have hforget : forgetClasses parentOf ((M.node m.host.node).classes.slots.length + 1)
      (m.host.node.classes.graft M.classes) (Name.normalize name) =
        (forgetClasses parentOf (m.host.node.classes.slots.length + 1) m.host.node.classes
          (Name.normalize name)).graft M.classes := by
    rw [hlength, forgetClasses_graft]
  exact congrArg (fun classes => { m with host :=
    { m.host with node := { M.node m.host.node with classes := classes } } }) hforget

theorem Machine.good_invalidateClass {m : Machine Host} (hm : M.mask.Good m.host) (name : String) :
    M.mask.Good (m.invalidateClass name).host :=
  M.good_of_eq hm rfl rfl rfl
    ⟨regular_forgetClasses _ _ hm.2.classes _, hm.2.resources, hm.2.functions⟩

theorem overlooks_invalidateClass {ε : Type} (name : String) :
    Overlooks M.mask
      (modify (·.invalidateClass name) : ExceptT ε (StateM (Machine Host)) PUnit)
      (modify (·.invalidateClass name)) :=
  .modify fun m hm => ⟨m.invalidateClass_machine name, Machine.good_invalidateClass hm name⟩

namespace Writing

variable {α : Type}

theorem overlooks_ofExcept (x : Except NodeError α) :
    Overlooks M.mask (ofExcept x) (ofExcept x) :=
  fun _ hm => ⟨rfl, hm⟩

theorem overlooks_onHierarchy (x : Storing α) :
    Overlooks M.mask (onHierarchy x) (onHierarchy x) :=
  fun _ hm => ⟨rfl, M.good_of_eq hm rfl rfl rfl ⟨hm.2.classes, hm.2.resources, hm.2.functions⟩⟩

theorem overlooks_registerSource (kind : SourceKind) (name : String) (level : Nat) :
    Overlooks M.mask (onNode (Node.registerSource kind name level))
      (onNode (Node.registerSource kind name level)) :=
  .modify fun _ hm =>
    ⟨rfl, M.good_of_eq hm rfl rfl rfl ⟨hm.2.classes, hm.2.resources, hm.2.functions⟩⟩

theorem overlooks_forgetSource (kind : SourceKind) (name : String) :
    Overlooks M.mask (onNode (Node.forgetSource kind name))
      (onNode (Node.forgetSource kind name)) :=
  .modify fun _ hm =>
    ⟨rfl, M.good_of_eq hm rfl rfl rfl ⟨hm.2.classes, hm.2.resources, hm.2.functions⟩⟩

variable (d : Disk)

theorem overlooks_assignClass (className : String) (level : Nat) :
    Overlooks M.mask (assignClass d className level) (assignClass d className level) := by
  refine .look fun m _ => .bind (overlooks_ofExcept _) fun names => ?_
  split
  · exact .pure _
  · exact .bind (overlooks_onHierarchy _) fun _ => overlooks_registerSource _ _ _

theorem overlooks_removeClass (className : String) (level : Nat) :
    Overlooks M.mask (removeClass d className level) (removeClass d className level) := by
  refine .look fun m _ => .bind (overlooks_ofExcept _) fun names => ?_
  dsimp only
  split
  · exact .pure _
  · split
    · exact .bind (overlooks_onHierarchy _) fun _ =>
        .bind (overlooks_forgetSource _ _) fun _ => .pure _
    · exact .bind (overlooks_onHierarchy _) fun _ =>
        .bind (overlooks_forgetSource _ _) fun _ => .pure _

theorem overlooks_setProperty (className property : String) (v : Value) (level : Nat) :
    Overlooks M.mask (setProperty d className property v level)
      (setProperty d className property v level) :=
  .bind (overlooks_onHierarchy _) fun _ => overlooks_invalidateClass _

theorem overlooks_removeProperty (className property : String) (level : Nat) :
    Overlooks M.mask (removeProperty d className property level)
      (removeProperty d className property level) :=
  .bind (overlooks_onHierarchy _) fun _ => .bind (overlooks_forgetSource _ _) fun _ =>
    .bind (overlooks_invalidateClass _) fun _ => .pure _

end Writing
end Cascade
