import Cascade.Files.Path
import Cascade.Table
import Cascade.Text.Split
/-!
A file tree held as a value. Entries are kept under the names that lead to them from the root, and
every write is stamped by a clock that moves on with it, so that later files are newer.

Paths are followed one piece at a time: a piece, even an empty one after a last slash, can only follow
a directory.
-/
namespace Cascade

inductive IoError
  | notFound
  | permissionDenied
  | exists
  | notADirectory
  | isADirectory
  | nameTooLong
  | nulInName
  | notText
  | wholeTree
  deriving DecidableEq, Inhabited

namespace IoError

/-- What went wrong, and the number of the error where it has one. -/
def describe : IoError → String × Option Nat
  | notFound => ("No such file or directory", some 2)
  | permissionDenied => ("Permission denied", some 13)
  | .exists => ("File exists", some 17)
  | notADirectory => ("Not a directory", some 20)
  | isADirectory => ("Is a directory", some 21)
  | nameTooLong => ("File name too long", some 36)
  | nulInName => ("file name contained an unexpected NUL byte", none)
  | notText => ("stream did not contain valid UTF-8", none)
  | wholeTree => ("failed to create whole tree", none)

def reason (e : IoError) : String := e.describe.1

def message (e : IoError) : String :=
  match e.describe with
  | (reason, some number) => reason ++ " (os error " ++ toString number ++ ")"
  | (reason, none) => reason

end IoError

/-- What a file holds: text, or bytes that are no UTF-8. -/
inductive Content
  | text (s : String)
  | binary (bytes : ByteArray)
  deriving Inhabited

namespace Content

def ofBytes (bytes : ByteArray) : Content :=
  match String.fromUTF8? bytes with
  | some s => text s
  | none => binary bytes

def toBytes : Content → ByteArray
  | text s => s.toUTF8
  | binary bytes => bytes

def text? : Content → Except IoError String
  | text s => .ok s
  | binary _ => .error .notText

end Content

inductive Entry
  | file (content : Content) (modified : Nat)
  | directory (modified : Nat)
  deriving Inhabited

def Entry.isDirectory : Entry → Bool
  | directory _ => true
  | file .. => false

def Entry.modified : Entry → Nat
  | file _ t | directory t => t

structure Files where
  entries : Table (List String) Entry
  /-- Where relative paths start. -/
  workDir : List String
  clock : Nat
  deriving Inhabited

namespace Files

def empty (workDir : List String) (clock : Nat) : Files := ⟨[], workDir, clock⟩

def entry? (files : Files) : List String → Option Entry
  | [] => some (.directory 0)
  | place => files.entries.get? place

def longestName : Nat := 255

/-- Follows the pieces from `place`; only the last name may be missing. -/
def walk (files : Files) : (place : List String) → (pieces : List String) →
    Except IoError (List String)
  | place, [] => .ok place
  | place, piece :: rest =>
    match files.entry? place with
    | none => .error .notFound
    | some (.file ..) => .error .notADirectory
    | some (.directory _) =>
      match Path.ofPiece? piece with
      | some .up => walk files place.dropLast rest
      | some (.name s) =>
        if longestName < s.utf8ByteSize then .error .nameTooLong
        else walk files (place ++ [s]) rest
      | _ => walk files place rest

def locatePieces (files : Files) (path : String) (pieces : List String) :
    Except IoError (List String) :=
  if path.toList.contains '\x00' then .error .nulInName
  else if path.isEmpty then .error .notFound
  else files.walk (if Path.isAbsolute path then [] else files.workDir) pieces

def locate (files : Files) (path : String) : Except IoError (List String) :=
  files.locatePieces path (Path.pieces path)

def stat (files : Files) (path : String) : Except IoError Entry := do
  match files.entry? (← files.locate path) with
  | some e => pure e
  | none => throw .notFound

def «exists» (files : Files) (path : String) : Bool := (files.stat path).isOk

def isDirectory (files : Files) (path : String) : Bool :=
  match files.stat path with
  | .ok e => e.isDirectory
  | .error _ => false

def read (files : Files) (path : String) : Except IoError Content := do
  match ← files.stat path with
  | .file content _ => pure content
  | .directory _ => throw .isADirectory

def readText (files : Files) (path : String) : Except IoError String := do
  (← files.read path).text?

/-- The text of a file; `none` when there is no such file. -/
def readOptional (files : Files) (path : String) : Except IoError (Option String) :=
  match files.readText path with
  | .ok s => .ok (some s)
  | .error .notFound => .ok none
  | .error e => .error e

def put (files : Files) (place : List String) (e : Entry) : Files :=
  { files with entries := files.entries.set place e }

/-- Writes a file with the given time. -/
def writeAt (files : Files) (path : String) (content : Content) (modified : Nat) :
    Except IoError Files := do
  let place ← files.locate path
  match files.entry? place with
  | some (.directory _) => throw .isADirectory
  | _ => pure (files.put place (.file content modified))

def tick (files : Files) : Files := { files with clock := files.clock + 1 }

def write (files : Files) (path : String) (content : Content) : Except IoError Files := do
  return (← files.writeAt path content files.clock).tick

/-- Makes one directory, whose parent has to be there. -/
def makeDirectory (files : Files) (path : String) : Except IoError Files := do
  let pieces := ((Path.pieces path).reverse.dropWhile (·.isEmpty)).reverse
  let place ← files.locatePieces path pieces
  match files.entry? place with
  | some _ => throw .exists
  | none => pure (files.put place (.directory files.clock)).tick

/-- A directory that is already there is as good as a new one. -/
def ensureDirectory (files : Files) (path : String) : Except IoError Files :=
  match files.makeDirectory path with
  | .ok files => .ok files
  | .error e => if files.isDirectory path then .ok files else .error e

def makeDirectoriesWithin : (steps : Nat) → Files → String → Except IoError Files
  | 0, _, _ => .error .wholeTree
  | steps + 1, files, path =>
    if path.isEmpty then .ok files
    else match files.ensureDirectory path with
      | .error .notFound => do
        match Path.parent? path with
        | none => throw .wholeTree
        | some parent => (← makeDirectoriesWithin steps files parent).ensureDirectory path
      | result => result

/-- Makes a directory and every one above it that is missing. -/
def makeDirectories (files : Files) (path : String) : Except IoError Files :=
  makeDirectoriesWithin (path.length + 1) files path

def removeFile (files : Files) (path : String) : Except IoError Files := do
  let place ← files.locate path
  match files.entry? place with
  | none => throw .notFound
  | some (.directory _) => throw .isADirectory
  | some (.file ..) => pure { files with entries := files.entries.erase place }

/-- Removes an entry and, if it is a directory, everything below it. -/
def removeAll (files : Files) (path : String) : Except IoError Files := do
  let place ← files.locate path
  match files.entry? place with
  | none => throw .notFound
  | some _ => pure { files with entries := files.entries.filter fun e => !place.isPrefixOf e.1 }

/-- The files at and below a path, each with its path text and time. -/
def filesBelow (files : Files) (path : String) : List (String × Nat) :=
  match files.locate path with
  | .error _ => []
  | .ok place =>
    files.entries.filterMap fun e =>
      match e.2 with
      | .directory _ => none
      | .file _ modified =>
        if place.isPrefixOf e.1 then
          some ((e.1.drop place.length).foldl Path.join path, modified)
        else none

end Files
end Cascade
