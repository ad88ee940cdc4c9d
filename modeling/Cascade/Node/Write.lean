import Cascade.Hierarchy.Store
import Cascade.Node.Override
/-!
Writes of a node, one step after another: changes of the class list and of overrides. Whether they end
well or fail, they leave the machine with the steps that were done.
-/
namespace Cascade

abbrev Writing (α : Type) := ExceptT NodeError (StateM (Machine Host)) α

namespace Writing

def ofExcept {α : Type} (r : Except NodeError α) : Writing α := fun m => (r, m)

def stored (m : Machine Host) : Store :=
  ⟨m.host.node.compiled, m.host.world.files, m.host.world.entropy⟩

def withStored (m : Machine Host) (s : Store) : Machine Host :=
  { m with host :=
    { node := { m.host.node with compiled := s.compiled }
      world := { m.host.world with files := s.files, entropy := s.entropy } } }

/-- A write to the hierarchy of the node. -/
def onHierarchy {α : Type} (x : Storing α) : Writing α := fun m =>
  ((x.run (stored m)).1.mapError .hierarchy, withStored m (x.run (stored m)).2)

def onNode (f : Node → Node) : Writing Unit :=
  modify fun m => { m with host := { m.host with node := f m.host.node } }

variable (d : Disk)

/-- Adds a class to the list of a level, unless it is there. -/
def assignClass (className : String) (level : Nat) : Writing Unit := do
  let className := Name.normalize className
  let node := (← get).host.node
  let names ← ofExcept (node.namesAt level)
  if names.any fun n => Name.normalize n == className then return
  else do
    onHierarchy (Storing.assignRaw d level node.classListKey (Node.listOf (names ++ [className])))
    onNode (Node.registerSource .hostClass className level)

/-- Removes a class from the list of a level, and tells whether it was there. -/
def removeClass (className : String) (level : Nat) : Writing Bool := do
  let className := Name.normalize className
  let node := (← get).host.node
  let names ← ofExcept (node.namesAt level)
  let kept := names.filter fun n => Name.normalize n != className
  if kept.length = names.length then return false
  else do
    if kept.isEmpty then do
      let _ ← onHierarchy (Storing.erase d level node.classListKey)
    else
      onHierarchy (Storing.assignRaw d level node.classListKey (Node.listOf kept))
    onNode (Node.forgetSource .hostClass className)
    return true

/-- Sets a parameter of a class at a level. -/
def setProperty (className property : String) (v : Value) (level : Nat) : Writing Unit := do
  let className := Name.normalize className
  onHierarchy (Storing.assign d level (Machine.overrideKey className property) v)
  modify (·.invalidateClass className)

/-- Removes an override from a level and gives the value it had. -/
def removeProperty (className property : String) (level : Nat) : Writing (Option Value) := do
  let className := Name.normalize className
  let key := Machine.overrideKey className property
  let removed ← onHierarchy (Storing.erase d level key)
  onNode (Node.forgetSource .property key)
  modify (·.invalidateClass className)
  return removed

end Writing
end Cascade
