import Cascade.Files.Disk
import Cascade.Hierarchy.Compiled
/-!
Writes to a hierarchy, one step after another: a write that fails has done its first steps. Every step
that can fail comes before the one that replaces the copy of a level.
-/
namespace Cascade

/-- What a write to a hierarchy works on. -/
structure Store where
  compiled : Compiled
  files : Files
  entropy : Entropy

abbrev Storing (α : Type) := ExceptT HierarchyError (StateM Store) α

namespace Storing

def ofExcept {α : Type} (r : Except HierarchyError α) : Storing α := fun s => (r, s)

/-- An operation on files; its failure is told with a path. -/
def onFiles {α : Type} (path : String) (x : Filing α) : Storing α := fun s =>
  ((x.run s.files).1.mapError (.io path), { s with files := (x.run s.files).2 })

def level (n : Nat) : Storing CompiledLevel := do ofExcept ((← get).compiled.level n)

def putLevel (n : Nat) (l : CompiledLevel) : Storing Unit :=
  modify fun s => { s with compiled := s.compiled.putLevel n l }

variable (d : Disk)

/-- Reads the file at a path; `none` when there is no file. -/
def «open» (path : String) : Storing (Option DataFile) := do
  match d.readText (← get).files path with
  | .ok text => ofExcept ((DataFile.parse path text).map some)
  | .error .notFound => return none
  | .error e => throw (.io path e)

def makeParent (path : String) : Storing Unit :=
  match Path.parent? path with
  | none => pure ()
  | some parent => onFiles parent (d.makeDirectories parent)

/-- Writes a file and the directories it needs. -/
def save (f : DataFile) : Storing Unit := do
  makeParent d f.path
  onFiles f.path (d.write f.path f.text)

/-- Writes a value to one level as it is. -/
def assignRaw (n : Nat) (key : String) (v : Value) : Storing Unit := do
  let l ← level n
  let old := (← Storing.open d l.path).getD (DataFile.empty l.path)
  let new := old.set key v
  save d new
  putLevel n { l with file := some new }

def loadKey (keys : KeyPaths) : Storing Rsa.PublicKey := do
  match d.readText (← get).files keys.publicKey with
  | .error e => throw (.io keys.publicKey e)
  | .ok text => ofExcept (Envelope.keyOfText text)

/-- The form of a value in which a level stores it. -/
def storedForm (l : CompiledLevel) (v : Value) : Storing Value := do
  match l.keys with
  | none => return v
  | some keys =>
    let key ← loadKey d keys
    let s ← get
    let (envelope, entropy) ← ofExcept (Envelope.encrypt key (Compiled.plaintext v) s.entropy)
    set { s with entropy }
    return .string envelope

/-- Writes a value to one level, encrypted if the level is. -/
def assign (n : Nat) (key : String) (v : Value) : Storing Unit := do
  let v ← storedForm d (← level n) v
  assignRaw d n key v

/-- Removes a key from one level and gives the value it had in the file. -/
def erase (n : Nat) (key : String) : Storing (Option Value) := do
  let l ← level n
  match ← Storing.open d l.path with
  | none =>
    putLevel n { l with file := none }
    return none
  | some old =>
    match old.get? key with
    | none =>
      putLevel n { l with file := some old }
      return none
    | some v =>
      let new := old.erase key
      save d new
      putLevel n { l with file := some new }
      return some v

end Storing
end Cascade
