import Cascade.Node.Basic
/-!
The list of classes of a node. It is the union of what the levels list under the class-list key; a
class counts for the most important level that names it. A level may also list a single name.
-/
namespace Cascade

inductive NodeError
  | hierarchy (e : HierarchyError)
  /-- What a level has in the place of the list. -/
  | classList (level : Nat) (found : String)
  deriving DecidableEq

def NodeError.message : NodeError → String
  | hierarchy e => e.message
  | classList level found =>
    "'" ++ found ++ "' at level " ++ Decimal.digitText level ++ " is not a list of class names"

/-- A word for programs that read answers. -/
def NodeError.kind : NodeError → String
  | hierarchy e => e.kind
  | classList .. => "ClassList"

instance : MonadLift (Except HierarchyError) (Except NodeError) where
  monadLift
    | .ok a => .ok a
    | .error e => .error (.hierarchy e)

namespace NodeError

@[simp] theorem liftM_ok {α : Type} (a : α) :
    (liftM (.ok a : Except HierarchyError α) : Except NodeError α) = .ok a := rfl

@[simp] theorem liftM_error {α : Type} (e : HierarchyError) :
    (liftM (.error e : Except HierarchyError α) : Except NodeError α) = .error (.hierarchy e) := rfl

theorem liftM_eq_ok {α : Type} {x : Except HierarchyError α} {a : α} :
    (liftM x : Except NodeError α) = .ok a ↔ x = .ok a := by
  cases x <;> simp

end NodeError

namespace Node

def namesIn : Value → List String
  | .string s => [s]
  | .array items => items.filterMap Value.asString?
  | _ => []

def listOf (names : List String) : Value := .array (names.map Value.string)

/-- Adds names at a level, unless a level before has them. -/
def addNames (classes : Table String Nat) (level : Nat) (names : List String) : Table String Nat :=
  names.foldl (fun classes name =>
    let name := Name.normalize name
    if classes.contains name then classes else classes.set name level) classes

/-- The classes of a node with the levels that name them first. -/
def listedClasses (n : Node) : Table String Nat :=
  (n.compiled.lookupAll n.classListKey).foldl
    (fun classes (v, level) => addNames classes level (namesIn v)) []

/-- As `listedClasses`; the levels are also registered as the sources of the classes. -/
def includedClasses (n : Node) : Table String Nat × Node :=
  let classes := n.listedClasses
  (classes, classes.foldl (fun n c => n.registerSource .hostClass c.1 c.2) n)

/-- The names that one level lists. -/
def namesAt (n : Node) (level : Nat) : Except NodeError (List String) := do
  match ← n.compiled.getAt level n.classListKey with
  | none | some .undef => return []
  | some v@(.array _) | some v@(.string _) => return namesIn v
  | some v => throw (.classList level v.display)

end Node

namespace Host

def withCompiled (h : Host) (compiled : Compiled) (files : Files) : Host :=
  { h with node := { h.node with compiled }, world := { h.world with files } }

/-- Adds a class to the list of a level, unless it is there. -/
def assignClass (h : Host) (className : String) (level : Nat) : Except NodeError Host := do
  let className := Name.normalize className
  let names ← h.node.namesAt level
  if names.any fun n => Name.normalize n == className then return h
  else
    let (compiled, files) ← h.node.compiled.assignRaw h.world.files level h.node.classListKey
      (Node.listOf (names ++ [className]))
    let h := h.withCompiled compiled files
    return { h with node := h.node.registerSource .hostClass className level }

/-- Removes a class from the list of a level, and tells whether it was there. An empty list is removed
as a whole. -/
def removeClass (h : Host) (className : String) (level : Nat) : Except NodeError (Bool × Host) := do
  let className := Name.normalize className
  let names ← h.node.namesAt level
  let kept := names.filter fun n => Name.normalize n != className
  if kept.length = names.length then return (false, h)
  else
    let key := h.node.classListKey
    let (compiled, files) ←
      if kept.isEmpty then do
        let (_, compiled, files) ← h.node.compiled.erase h.world.files level key
        pure (compiled, files)
      else do
        let done ← h.node.compiled.assignRaw h.world.files level key (Node.listOf kept)
        pure done
    let h := h.withCompiled compiled files
    return (true, { h with node := h.node.forgetSource .hostClass className })

end Host
end Cascade
