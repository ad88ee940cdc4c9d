import Cascade.Proofs.Node.Coherence
import Mathlib.Data.List.Nodup
import Mathlib.Logic.Function.Iterate
import Mathlib.Logic.Relation
/-!
What goes with a class that is forgotten. The loop goes from a class to the parent of the instance that it
takes out of the cache. It ends because each of its turns but the last leaves fewer classes there, even
where classes inherit from each other in a circle, and what it takes out is the line of parents.
-/
namespace Cascade

namespace Table

variable {κ α : Type} [DecidableEq κ]

theorem length_erase_le (t : Table κ α) (key : κ) : (erase t key).length ≤ t.length := by
  induction t with
  | nil => exact Nat.le_refl 0
  | cons e t ih =>
    simp only [erase]
    split <;> simp only [List.length_cons] <;> omega

theorem length_erase_lt {t : Table κ α} {key : κ} (h : (get? t key).isSome) :
    (erase t key).length < t.length := by
  induction t with
  | nil => simp at h
  | cons e t ih =>
    rw [get?_cons] at h
    rw [erase, List.length_cons]
    split
    · exact Nat.lt_succ_of_le (length_erase_le t key)
    · rw [if_neg ‹_›] at h
      exact Nat.succ_lt_succ (ih h)

end Table

section Turns

variable {parentOf : Nat → Option String} {c : Cache String Nat}

/-- One turn of the loop that forgets classes: the one that comes next leaves the cache, and if it was
resolved, it is followed by its parent. -/
def forgetTurn (parentOf : Nat → Option String) :
    Cache String Nat × Option String → Cache String Nat × Option String
  | (c, none) => (c, none)
  | (c, some name) => (c.invalidate name, ((c.get? name).bind parentOf).map Name.normalize)

theorem SingleFlight.isSome_slots_of_get? {name : String} {i : Nat} (h : c.get? name = some i) :
    (c.slots.get? name).isSome := by
  unfold get? at h
  cases hs : c.slots.get? name with
  | none => simp [hs] at h
  | some s => rfl

/-- A turn that is followed by another one leaves fewer classes. -/
theorem length_lt_of_forgetTurn {name : String} {i : Nat} (h : c.get? name = some i) :
    (c.invalidate name).slots.length < c.slots.length :=
  Table.length_erase_lt (SingleFlight.isSome_slots_of_get? h)

/-- The loop ends, after no more turns than there are classes and one. -/
theorem exists_iterate_forgetTurn {steps : Nat} {name : String} (h : c.slots.length < steps) :
    ∃ turns ≤ c.slots.length + 1, (forgetTurn parentOf)^[turns] (c, some name) =
      (forgetClasses parentOf steps c name, none) := by
  induction steps generalizing c name with
  | zero => exact absurd h (Nat.not_lt_zero _)
  | succ steps ih =>
    unfold forgetClasses
    split
    next hget => exact ⟨1, Nat.le_add_left .., by simp [forgetTurn, hget]⟩
    next i hget =>
      split
      next hparent => exact ⟨1, Nat.le_add_left .., by simp [forgetTurn, hget, hparent]⟩
      next parent hparent =>
        have hlt := length_lt_of_forgetTurn hget
        obtain ⟨turns, hle, hrun⟩ := @ih (c.invalidate name) (Name.normalize parent) (by omega)
        refine ⟨turns + 1, by omega, ?_⟩
        rw [Function.iterate_succ_apply, ← hrun]
        simp [forgetTurn, hget, hparent]

end Turns

namespace Machine

variable {m : Machine Host} {gone chain : List String} {name parent : String} {stop : Option String}

/-- The instance of a class is in the cache. -/
def Resolved (m : Machine Host) (name : String) : Prop :=
  ∃ i, m.host.node.classes.get? name = some i

/-- The parent that the instance of a class has recorded, under the name classes are kept under. -/
def parentOf? (m : Machine Host) (name : String) : Option String :=
  ((m.host.node.classes.get? name).bind fun i => (m.instance? i).bind (·.parent)).map Name.normalize

/-- The line of a class: itself, the parent its instance has recorded, and so on. It stops before a class
that is not resolved or has gone already, and otherwise ends with one that has no parent. -/
inductive Lineage (m : Machine Host) : (gone : List String) → (name : String) →
    (chain : List String) → (stop : Option String) → Prop
  | stop {gone : List String} {name : String} :
      ¬m.Resolved name ∨ name ∈ gone → Lineage m gone name [] (some name)
  | root {gone : List String} {name : String} :
      name ∉ gone → m.Resolved name → m.parentOf? name = none → Lineage m gone name [name] none
  | heir {gone : List String} {name parent : String} {rest : List String} {stop : Option String} :
      name ∉ gone → m.parentOf? name = some parent →
        Lineage m (name :: gone) parent rest stop → Lineage m gone name (name :: rest) stop

theorem resolved_of_parentOf? (h : m.parentOf? name = some parent) : m.Resolved name := by
  unfold parentOf? at h
  cases hget : m.host.node.classes.get? name with
  | none => simp [hget] at h
  | some i => exact ⟨i, hget⟩

namespace Lineage

theorem resolved (h : m.Lineage gone name chain stop) : ∀ k ∈ chain, m.Resolved k := by
  induction h with
  | stop => simp
  | root _ hr => simpa using hr
  | heir _ hp _ ih => exact List.forall_mem_cons.mpr ⟨resolved_of_parentOf? hp, ih⟩

theorem disjoint (h : m.Lineage gone name chain stop) : ∀ k ∈ chain, k ∉ gone := by
  induction h with
  | stop => simp
  | root hg => simpa using hg
  | heir hg _ _ ih =>
    exact List.forall_mem_cons.mpr ⟨hg, fun k hk hmem => ih k hk (List.mem_cons_of_mem _ hmem)⟩

theorem nodup (h : m.Lineage gone name chain stop) : chain.Nodup := by
  induction h with
  | stop => exact List.nodup_nil
  | root => exact List.nodup_singleton _
  | heir _ _ hrest ih =>
    exact List.nodup_cons.mpr ⟨fun hmem => hrest.disjoint _ hmem (List.mem_cons_self ..), ih⟩

/-- What the line stops before is not resolved, or it has gone. -/
theorem of_stop (h : m.Lineage gone name chain stop) {k : String} (hk : stop = some k) :
    ¬m.Resolved k ∨ k ∈ chain ++ gone := by
  induction h with
  | stop hs => exact Option.some.inj hk ▸ hs
  | root => simp at hk
  | heir _ _ _ ih =>
    refine (ih hk).imp_right fun hmem => ?_
    simp only [List.mem_append, List.mem_cons] at hmem ⊢
    tauto

end Lineage

/-- One resolved class is the recorded parent of another. -/
def Inherits (m : Machine Host) (child parent : String) : Prop := m.parentOf? child = some parent

theorem Lineage.reachable (h : m.Lineage gone name chain stop) :
    ∀ k ∈ chain, Relation.ReflTransGen m.Inherits name k := by
  induction h with
  | stop => simp
  | root => simpa using .refl
  | heir _ hp _ ih => exact List.forall_mem_cons.mpr ⟨.refl, fun k hk => .head hp (ih k hk)⟩

/-- The parents of what has gone and of what is in the line have gone or are in the line too, unless they
are not resolved. -/
theorem Lineage.closed (h : m.Lineage gone name chain stop)
    (hgone : ∀ child ∈ gone, ∀ parent, m.Inherits child parent → parent ∈ gone ∨ parent = name) :
    ∀ child ∈ chain ++ gone, ∀ parent, m.Inherits child parent → m.Resolved parent →
      parent ∈ chain ++ gone := by
  -- `gone` grows along the line, and what comes next is all that its parents may lack
  induction h with
  | stop hs =>
    intro child hc parent hp hr
    obtain hmem | rfl := hgone child hc parent hp
    · exact hmem
    · exact hs.resolve_left (not_not_intro hr)
  | @root gone name _ _ hroot =>
    intro child hc parent hp _
    obtain rfl | hc := List.mem_cons.mp hc
    · rw [Inherits, hroot] at hp
      simp at hp
    · exact List.mem_cons.mpr (hgone child hc parent hp).symm
  | @heir gone name next rest _ _ hnext _ ih =>
    have hmem (k : String) : k ∈ name :: rest ++ gone ↔ k ∈ rest ++ name :: gone := by
      simp only [List.cons_append, List.mem_cons, List.mem_append]
      tauto
    intro child hc parent hp hr
    rw [hmem] at hc ⊢
    refine ih (fun child hc parent hp => ?_) child hc parent hp hr
    obtain rfl | hc := List.mem_cons.mp hc
    · exact .inr (Option.some.inj (hp.symm.trans hnext))
    · exact .inl (List.mem_cons.mpr (hgone child hc parent hp).symm)

theorem Lineage.self_mem (h : m.Lineage gone name chain stop) (hr : m.Resolved name) :
    name ∈ chain ++ gone := by
  cases h with
  | stop hs => exact hs.resolve_left (not_not_intro hr)
  | root | heir => simp

/-- The line of a class is all that is resolved of what it inherits from, in one step or many. -/
theorem Lineage.mem_iff (h : m.Lineage [] name chain stop) (k : String) :
    k ∈ chain ↔ m.Resolved k ∧ Relation.ReflTransGen m.Inherits name k := by
  refine ⟨fun hk => ⟨h.resolved k hk, h.reachable k hk⟩, ?_⟩
  rintro ⟨hr, hreach⟩
  induction hreach with
  | refl => simpa using h.self_mem hr
  | @tail child parent _ hp ih =>
    have hchild : child ∈ chain := ih (resolved_of_parentOf? hp)
    simpa using h.closed (by simp) child (by simpa using hchild) parent hp hr

end Machine

/-- A cache that has lost the slots of some keys. -/
def SingleFlight.Without (c c' : Cache String Nat) (gone : List String) : Prop :=
  ∀ k, c'.slots.get? k = if k ∈ gone then none else c.slots.get? k

namespace SingleFlight.Without

variable {c c' : Cache String Nat} {gone gone' : List String}

theorem of_mem_iff (h : c.Without c' gone) (hmem : ∀ k, k ∈ gone' ↔ k ∈ gone) :
    c.Without c' gone' := by
  intro k
  simp only [h k, hmem]

theorem invalidate (h : c.Without c' gone) (name : String) :
    c.Without (c'.invalidate name) (name :: gone) := by
  intro k
  rw [SingleFlight.invalidate, Table.get?_erase, h k]
  by_cases hk : k = name
  · simp [hk]
  · simp [hk, Ne.symm hk]

theorem get? (h : c.Without c' gone) (k : String) :
    c'.get? k = if k ∈ gone then none else c.get? k := by
  unfold SingleFlight.get?
  rw [h k]
  by_cases hk : k ∈ gone <;> simp [hk]

end SingleFlight.Without

theorem forgetClasses_slots (parentOf : Nat → Option String) (steps : Nat) (c : Cache String Nat)
    (name : String) :
    forgetClasses parentOf steps c name =
      { c with slots := (forgetClasses parentOf steps c name).slots } := by
  induction steps generalizing c name with
  | zero => rfl
  | succ steps ih =>
    unfold forgetClasses
    split
    · rfl
    · split
      · rfl
      · exact ih (c.invalidate name) _

namespace Machine

variable {m : Machine Host} {gone : List String} {c : Cache String Nat}

/-- What is taken out of a cache that has lost some classes already is a line of parents, and what it stops
before. -/
theorem exists_lineage {steps : Nat} {name : String} (hc : m.host.node.classes.Without c gone)
    (h : c.slots.length < steps) :
    ∃ chain stop, m.Lineage gone name chain stop ∧ m.host.node.classes.Without
      (forgetClasses (fun i => (m.instance? i).bind (·.parent)) steps c name)
      (chain ++ stop.toList ++ gone) := by
  induction steps generalizing c gone name with
  | zero => exact absurd h (Nat.not_lt_zero _)
  | succ steps ih =>
    have hget := hc.get? name
    have hname := hc.invalidate name
    unfold forgetClasses
    split
    next hnone =>
      have hstop : ¬m.Resolved name ∨ name ∈ gone := by
        rw [hnone] at hget
        split at hget
        next hmem => exact .inr hmem
        · exact .inl fun ⟨i, hi⟩ => absurd (hget.trans hi) (by simp)
      exact ⟨[], some name, .stop hstop, hname⟩
    next i hsome =>
      have hlt := length_lt_of_forgetTurn hsome
      rw [hsome] at hget
      split at hget
      · exact absurd hget (by simp)
      next hmem =>
        split
        next hparent =>
          have hroot : m.parentOf? name = none := by simp [parentOf?, ← hget, hparent]
          exact ⟨[name], none, .root hmem ⟨i, hget.symm⟩ hroot, hname⟩
        next parent hparent =>
          have hnext : m.parentOf? name = some (Name.normalize parent) := by
            simp [parentOf?, ← hget, hparent]
          obtain ⟨rest, stop, hrest, hwithout⟩ := ih hname (by omega)
          refine ⟨name :: rest, stop, .heir hmem hnext hrest, hwithout.of_mem_iff fun k => ?_⟩
          simp only [List.cons_append, List.mem_cons, List.mem_append]
          tauto

/-- A cache that has lost a line and what it stops before has lost no instance but those of the line. -/
theorem Lineage.get?_of_without {name : String} {chain : List String} {stop : Option String}
    (h : m.Lineage [] name chain stop)
    (hc : m.host.node.classes.Without c (chain ++ stop.toList ++ [])) (k : String) :
    c.get? k = if k ∈ chain then none else m.host.node.classes.get? k := by
  refine (hc.get? k).trans ?_
  by_cases hstop : stop = some k
  · obtain hr | hmem := h.of_stop hstop
    · have hnone : m.host.node.classes.get? k = none :=
        Option.eq_none_iff_forall_ne_some.mpr fun i hi => hr ⟨i, hi⟩
      simp [hnone]
    · have hmem : k ∈ chain := by simpa using hmem
      simp [hmem]
  · simp [Option.mem_toList, hstop]

/-- Forgetting a class takes the line of its recorded parents out of the cache, with a load that the line
stops before, and changes nothing else. The loop ends, whatever inherits from what. -/
theorem invalidateClass_lineage (m : Machine Host) (name : String) :
    let parentOf (i : Nat) := (m.instance? i).bind (·.parent)
    let left := (m.invalidateClass name).host.node.classes
    ∃ chain stop, m.Lineage [] (Name.normalize name) chain stop ∧ chain.Nodup ∧
      (∀ k, k ∈ chain ↔
        m.Resolved k ∧ Relation.ReflTransGen m.Inherits (Name.normalize name) k) ∧
      (∀ k, left.get? k = if k ∈ chain then none else m.host.node.classes.get? k) ∧
      (∀ k, left.slots.get? k =
        if k ∈ chain ∨ stop = some k then none else m.host.node.classes.slots.get? k) ∧
      m.invalidateClass name = { m with host := { m.host with node := { m.host.node with
        classes := { m.host.node.classes with slots := left.slots } } } } ∧
      ∃ turns ≤ m.host.node.classes.slots.length + 1,
        (forgetTurn parentOf)^[turns] (m.host.node.classes, some (Name.normalize name)) =
          (left, none) := by
  intro parentOf left
  have hall : m.host.node.classes.Without m.host.node.classes [] := fun k => by simp
  obtain ⟨chain, stop, hline, hwithout⟩ :=
    exists_lineage hall (Nat.lt_succ_self m.host.node.classes.slots.length)
  have hslots (k : String) : left.slots.get? k =
      if k ∈ chain ∨ stop = some k then none else m.host.node.classes.slots.get? k := by
    refine (hwithout k).trans ?_
    simp [Option.mem_toList]
  refine ⟨chain, stop, hline, hline.nodup, hline.mem_iff, hline.get?_of_without hwithout, hslots,
    ?_, ?_⟩
  · exact congrArg
      (fun classes => { m with host := { m.host with node := { m.host.node with classes } } })
      (forgetClasses_slots parentOf _ m.host.node.classes _)
  · exact exists_iterate_forgetTurn (Nat.lt_succ_self _)

/-- A class that is called one thing and inherits another. -/
def heirText (name parent : String) : String :=
  "\x7b\"^\":[\"class\",\x7b\"#\":[\"name\",\"" ++ name ++ "\",\"parent\",\"" ++ parent ++
  "\"]\x7d]\x7d"

/-- A node whose classes `left` and `right` inherit from each other, and `child` from one of them. -/
def circle : Machine Host :=
  .start ⟨Fleet.newcomer "n0", { World.ofFiles (.empty [] 0) ⟨fun _ => 0, 0⟩ with
    shelf := ⟨[("left", .ok (heirText "left" "right")), ("right", .ok (heirText "right" "left")),
      ("child", .ok (heirText "child" "left"))], []⟩ }⟩

set_option maxRecDepth 10000 in
example :
    let m := (circle.resolve "child").2
    m.host.node.classes.keys = ["child", "left", "right"] ∧
      (m.invalidateClass "RIGHT").host.node.classes.keys = ["child"] := by decide +kernel

end Machine
end Cascade
