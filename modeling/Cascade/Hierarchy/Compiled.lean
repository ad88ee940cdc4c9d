import Cascade.Hierarchy.DataFile
import Cascade.Hierarchy.Envelope
import Cascade.Hierarchy.Template
import Cascade.Json.Printer
import Cascade.Value.Json
/-!
A hierarchy bound to one node: every template is filled in from the facts, and every data file that is
there has been read. Headers of data files may set facts; if any does, the templates are filled in
once more from the changed facts.

A level keeps a copy of its file. Every change reads the file again, changes that, writes it and keeps
what was written.
-/
namespace Cascade

structure CompiledLevel where
  level : Level
  path : String
  keys : Option KeyPaths
  /-- The file as last read or written; `none` if there was none. -/
  file : Option DataFile
  deriving Inhabited

namespace CompiledLevel

def get? (l : CompiledLevel) (key : String) : Option Value := l.file.bind fun f => f.get? key

def «exists» (l : CompiledLevel) : Bool := l.file.isSome

def set (l : CompiledLevel) (files : Files) (key : String) (v : Value) :
    Except HierarchyError (CompiledLevel × Files) := do
  let old := (← DataFile.open files l.path).getD (DataFile.empty l.path)
  let new := old.set key v
  return ({ l with file := some new }, ← new.save files)

/-- Removes a key and gives the value it had in the file. A file without the key is not written. -/
def erase (l : CompiledLevel) (files : Files) (key : String) :
    Except HierarchyError (Option Value × CompiledLevel × Files) := do
  match ← DataFile.open files l.path with
  | none => return (none, { l with file := none }, files)
  | some old =>
    match old.get? key with
    | none => return (none, { l with file := some old }, files)
    | some v =>
      let new := old.erase key
      return (some v, { l with file := some new }, ← new.save files)

end CompiledLevel

/-- Level 0 is the most important one. -/
structure Compiled where
  levels : List CompiledLevel
  /-- The facts of the node with what the headers set. -/
  facts : Facts
  deriving Inhabited

namespace Compiled

/-- What templates see: the identity of the node, over it the facts, and both again under the names
`trusted` and `facts`. -/
def scope (facts trusted : Facts) : Value :=
  .hash (Table.set (Table.set (Table.merge trusted facts) "facts" (.hash facts))
    "trusted" (.hash trusted))

def pathOf (h : Hierarchy) (level : Level) (facts trusted : Facts) : String :=
  Path.join (level.datadir.getD h.datadir)
    (Template.interpolatePath (scope facts trusted) level.template)

def bindLevel (files : Files) (h : Hierarchy) (facts trusted : Facts) (level : Level) :
    Except HierarchyError CompiledLevel := do
  let path := pathOf h level facts trusted
  return ⟨level, path, level.keys <|> h.keys, ← DataFile.open files path⟩

def bindLevels (files : Files) (h : Hierarchy) (facts trusted : Facts) :
    Except HierarchyError (List CompiledLevel) :=
  h.levels.mapM (bindLevel files h facts trusted)

/-- The facts that the headers of the files set; the most important level has the last word. -/
def headerFacts (levels : List CompiledLevel) : Facts :=
  levels.reverse.foldl (fun facts l => match l.file with
    | some f => Table.merge facts f.factOverrides
    | none => facts) []

def compile (files : Files) (h : Hierarchy) (facts trusted : Facts) :
    Except HierarchyError Compiled := do
  let levels ← bindLevels files h facts trusted
  match headerFacts levels with
  | [] => return ⟨levels, facts⟩
  | overrides =>
    let facts := Table.merge facts overrides
    return ⟨← bindLevels files h facts trusted, facts⟩

/-- The levels that have a key, with its value there. -/
def lookupFrom (key : String) : (number : Nat) → List CompiledLevel → List (Value × Nat)
  | _, [] => []
  | n, l :: ls => match l.get? key with
    | some v => (v, n) :: lookupFrom key (n + 1) ls
    | none => lookupFrom key (n + 1) ls

/-- Every level that has a key, the most important first. -/
def lookupAll (c : Compiled) (key : String) : List (Value × Nat) := lookupFrom key 0 c.levels

/-- The value of a key on the most important level that has it. -/
def lookup (c : Compiled) (key : String) : Option (Value × Nat) := (c.lookupAll key).head?

def level (c : Compiled) (n : Nat) : Except HierarchyError CompiledLevel :=
  match c.levels[n]? with
  | some l => .ok l
  | none => .error (.levelOutOfRange n c.levels.length)

def getAt (c : Compiled) (n : Nat) (key : String) : Except HierarchyError (Option Value) := do
  return (← c.level n).get? key

def putLevel (c : Compiled) (n : Nat) (l : CompiledLevel) : Compiled :=
  { c with levels := c.levels.set n l }

/-- Writes a value to one level as it is. -/
def assignRaw (c : Compiled) (files : Files) (n : Nat) (key : String) (v : Value) :
    Except HierarchyError (Compiled × Files) := do
  let (l, files) ← (← c.level n).set files key v
  return (c.putLevel n l, files)

/-- What is encrypted: a string itself, and the JSON of anything else. -/
def plaintext : Value → String
  | .string s => s
  | v => v.toJson.compact

/-- The form of a value in which a level stores it. -/
def storedForm (files : Files) (l : CompiledLevel) (v : Value) (entropy : Entropy) :
    Except HierarchyError (Value × Entropy) := do
  match l.keys with
  | none => return (v, entropy)
  | some keys =>
    let key ← Envelope.loadKey files keys
    let (envelope, entropy) ← Envelope.encrypt key (plaintext v) entropy
    return (.string envelope, entropy)

/-- Writes a value to one level, encrypted if the level is. -/
def assign (c : Compiled) (files : Files) (entropy : Entropy) (n : Nat) (key : String) (v : Value) :
    Except HierarchyError (Compiled × Files × Entropy) := do
  let (v, entropy) ← storedForm files (← c.level n) v entropy
  let (c, files) ← c.assignRaw files n key v
  return (c, files, entropy)

def erase (c : Compiled) (files : Files) (n : Nat) (key : String) :
    Except HierarchyError (Option Value × Compiled × Files) := do
  let (v, l, files) ← (← c.level n).erase files key
  return (v, c.putLevel n l, files)

end Compiled
end Cascade
