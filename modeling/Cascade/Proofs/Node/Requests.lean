import Cascade.Proofs.Eval.Frame
import Cascade.Proofs.Eval.Protocol
import Cascade.Proofs.Node.Caching
/-!
What requests leave alone. A node makes its evaluations in instances and copies of their own, so what
it is asked for never touches what is there already. All that a request changes of the node are its
caches, the world that it loads from and the levels that overrides come from.
-/
namespace Cascade

/-- A host that requests have led to. -/
structure Host.Further (h h' : Host) : Prop where
  onward : h.Onward h'
  classListKey : h'.node.classListKey = h.node.classListKey
  source : ∀ c, h'.node.source? .hostClass c = h.node.source? .hostClass c

namespace Host

def course : Course Host where
  Leads := Further
  refl h := ⟨.refl h, rfl, fun _ => rfl⟩
  trans h h' := ⟨h.onward.trans h'.onward, h'.classListKey.trans h.classListKey,
    fun c => (h'.source c).trans (h.source c)⟩

theorem further_world (h : Host) {world : World} (hw : h.node.loader.Leads h.world world) :
    h.Further { h with world } :=
  ⟨⟨.refl _, rfl, hw⟩, rfl, fun _ => rfl⟩

/-- The level of an override is not that of a class. -/
theorem further_registerSource (h : Host) (name : String) (level : Nat) :
    h.Further { h with node := h.node.registerSource .property name level } where
  onward := ⟨⟨rfl, rfl, rfl, rfl⟩, rfl, .refl⟩
  classListKey := rfl
  source c := Table.get?_set_ne _ (by simp) _

end Host

/-- A cache that can be put back without touching anything else. -/
def CacheOf.Aside {κ ν : Type} (c : CacheOf κ ν) : Prop :=
  ∀ (h : Host) (cache : Cache κ ν), h.Further { h with node := c.set h.node cache }

namespace CacheOf

theorem aside_classes : classes.Aside :=
  fun _ _ => ⟨⟨⟨rfl, rfl, rfl, rfl⟩, rfl, .refl⟩, rfl, fun _ => rfl⟩

theorem aside_resources : resources.Aside :=
  fun _ _ => ⟨⟨⟨rfl, rfl, rfl, rfl⟩, rfl, .refl⟩, rfl, fun _ => rfl⟩

theorem aside_functions : functions.Aside :=
  fun _ _ => ⟨⟨⟨rfl, rfl, rfl, rfl⟩, rfl, .refl⟩, rfl, fun _ => rfl⟩

end CacheOf

/-- An act that does nothing but to take the host further. -/
def Quiet (x : Act Host Unit) : Prop :=
  ∀ m : Machine Host, ∃ host, m.host.Further host ∧ x.run m = (.ok (), { m with host := host })

namespace Node

section

variable {κ ν : Type} {c : CacheOf κ ν} {own : Set Part}

theorem spares_step {α : Type} (hc : c.Aside) (change : Cache κ ν → α × Cache κ ν) :
    Spares Host.course own (c.step change) :=
  fun m => .of_host own (hc m.host _)

/-- A load may be preceded and followed by changes of a cache. -/
theorem spares_getOrLoad [DecidableEq κ] (hc : c.Aside) (key : κ) (cycle : EvalError)
    {load : (ν → Act Host Unit) → Act Host ν}
    (h : ∀ publish, (∀ v, Quiet (publish v)) → Spares Host.course own (load publish)) :
    Spares Host.course own (c.getOrLoad key cycle load) := by
  unfold CacheOf.getOrLoad
  refine .bind (spares_step hc _) fun claim => ?_
  split
  · exact .pure _
  · exact .pure _
  · exact .throw _
  · exact .throw _
  · refine .bind (.attempt (h _ fun v m => ⟨_, hc m.host _, rfl⟩)) fun o => ?_
    split
    · exact .bind (spares_step hc _) fun _ => .pure _
    · exact .bind (spares_step hc _) fun _ => .throw _
    · exact .bind (spares_step hc _) fun _ => .throw _

end

variable {r : Resolver Host} {own : Set Part}

theorem spares_loadDefinition (kind : DefinitionKind) (name : String) :
    Spares Host.course own (loadDefinition kind name) := by
  intro m
  rw [run_loadDefinition]
  exact .of_host own (m.host.further_world (.load kind name .refl))

theorem spares_buildInstance (hr : r.Spares Host.course) {publish : Nat → Act Host Unit}
    (hpublish : ∀ i, Quiet (publish i)) (d : Definition) (title : Option String)
    (seeds : Option (Table String Seed)) :
    Spares Host.course ∅ (buildInstance r publish d title seeds) := by
  intro m
  obtain ⟨host, hfurther, hrun⟩ := hpublish m.instances.length (m.withInstance d title seeds)
  rw [buildInstance, run_bind, Machine.run_createInstance]
  simp only
  rw [run_bind, hrun]
  simp only
  rw [run_bind_const]
  exact hr.resolveNew d title seeds hfurther

theorem spares_resolveClass (hr : r.Spares Host.course) (name : String) :
    Spares Host.course ∅ (resolveClass r name) :=
  spares_getOrLoad CacheOf.aside_classes _ _ fun _ hpublish => .mapError _
    (.bind (spares_loadDefinition _ _) fun d => spares_buildInstance hr hpublish d none none)

theorem spares_resolveResource (hr : r.Spares Host.course) (typeName title : String) :
    Spares Host.course ∅ (resolveResource r typeName title) :=
  spares_getOrLoad CacheOf.aside_resources _ _ fun _ hpublish => .mapError _
    (.bind (spares_loadDefinition _ _) fun d => .look fun _ => spares_buildInstance hr hpublish d _ _)

theorem spares_resolveFunction (name : String) :
    Spares Host.course own (resolveFunction name) := by
  unfold resolveFunction
  refine .bind (.attempt (spares_getOrLoad CacheOf.aside_functions _ _ fun _ _ => ?_)) fun found => ?_
  · refine .bind (spares_loadDefinition _ _) fun d => .bind (fun m => ?_) fun serial => .pure _
    exact .of_host own (m.host.further_world (.serial .refl))
  · split
    · exact .pure _
    · exact .pure _
    · exact .throw _
    · exact .throw _

/-- Requests touch nothing that is there already, however deep they nest. -/
theorem resolver_spares (depth : Nat) : (resolver depth).Spares Host.course := by
  induction depth with
  | zero => exact ⟨fun _ => .throw _, fun _ => .throw _, fun _ _ => .throw _,
      fun name level h => h.further_registerSource name level⟩
  | succ depth ih => exact ⟨spares_resolveClass ih,
      fun name => .bind (spares_resolveFunction name) fun _ => .pure _, ih.invokeFunction,
      fun name level h => h.further_registerSource name level⟩

/-- So every evaluation can rely on them for its cells. -/
theorem resolver_keepsTo (depth copy : Nat) : (resolver depth).KeepsTo copy :=
  (resolver_spares depth).keepsTo copy

end Node

end Cascade
