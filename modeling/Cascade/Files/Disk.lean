import Cascade.Files.Basic
/-!
File operations that leave behind what they did before they failed: of the directories above one that
cannot be made, some may be new. A disk can also fail by itself, at any operation.
-/
namespace Cascade

/-- Work on a file tree that may fail, but not undo. -/
abbrev Filing (α : Type) := ExceptT IoError (StateM Files) α

namespace Filing

/-- An operation that does everything or nothing. -/
def ofStep (step : Files → Except IoError Files) : Filing Unit := fun files =>
  match step files with
  | .ok files' => (.ok (), files')
  | .error e => (.error e, files)

def makeDirectoriesWithin : (steps : Nat) → String → Filing Unit
  | 0, _ => throw .wholeTree
  | steps + 1, path => do
    if path.isEmpty then return
    match (← get).ensureDirectory path with
    | .ok files => set files
    | .error .notFound =>
      match Path.parent? path with
      | none => throw .wholeTree
      | some parent => do
        makeDirectoriesWithin steps parent
        ofStep (·.ensureDirectory path)
    | .error e => throw e

/-- Makes a directory and every one above it that is missing. -/
def makeDirectories (path : String) : Filing Unit := makeDirectoriesWithin (path.length + 1) path

end Filing

/-- How file operations turn out. -/
structure Disk where
  readText : Files → String → Except IoError String
  makeDirectories : String → Filing Unit
  write : (path text : String) → Filing Unit

namespace Disk

/-- A disk that never fails by itself. -/
def plain : Disk where
  readText := Files.readText
  makeDirectories := Filing.makeDirectories
  write path text := Filing.ofStep (·.write path (.text text))

end Disk
end Cascade
