import Cascade.Eval.Machine
import Cascade.Node.ClassList
/-!
Overrides of class parameters. An override is written to one level under the key `class::parameter`;
the class and those it inherits from are then resolved anew when they are next asked for.
-/
namespace Cascade

/-- Forgets a class and then, one after another, the classes it inherits from. It ends with one that
is not resolved; every other one leaves the cache, so `steps` need not exceed its size. -/
def forgetClasses (parentOf : Nat → Option String) :
    (steps : Nat) → Cache String Nat → String → Cache String Nat
  | 0, classes, _ => classes
  | steps + 1, classes, name =>
    match classes.get? name with
    | none => classes.invalidate name
    | some i =>
      match parentOf i with
      | none => classes.invalidate name
      | some parent =>
        forgetClasses parentOf steps (classes.invalidate name) (Name.normalize parent)

namespace Machine

/-- Forgets a class and the classes it inherits from. -/
def invalidateClass (m : Machine Host) (name : String) : Machine Host :=
  let node := m.host.node
  let parentOf (i : Nat) : Option String := (m.instance? i).bind (·.parent)
  let classes := forgetClasses parentOf (node.classes.slots.length + 1) node.classes
    (Name.normalize name)
  { m with host := { m.host with node := { node with classes } } }

def overrideKey (className property : String) : String := className ++ "::" ++ property

/-- Writes an override to one level. -/
def setProperty (m : Machine Host) (className property : String) (v : Value) (level : Nat) :
    Except NodeError (Machine Host) := do
  let className := Name.normalize className
  let h := m.host
  let (compiled, files, entropy) ← h.node.compiled.assign h.world.files h.world.entropy level
    (overrideKey className property) v
  let h := h.withCompiled compiled files
  let h := { h with world := { h.world with entropy } }
  return { m with host := h }.invalidateClass className

/-- Removes an override from one level and gives its value. -/
def removeProperty (m : Machine Host) (className property : String) (level : Nat) :
    Except NodeError (Option Value × Machine Host) := do
  let className := Name.normalize className
  let key := overrideKey className property
  let (removed, compiled, files) ← m.host.node.compiled.erase m.host.world.files level key
  let h := m.host.withCompiled compiled files
  let h := { h with node := h.node.forgetSource .property key }
  return (removed, { m with host := h }.invalidateClass className)

end Machine
end Cascade
