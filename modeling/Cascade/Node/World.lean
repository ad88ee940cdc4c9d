import Cascade.Artifact
import Cascade.Build.Command
import Cascade.Crypto.Entropy
/-!
What nodes share: the file tree, artifacts kept in memory, random bytes and a counter. Definitions are
loaded from here, either from the shelf of artifacts in memory or from an artifact directory, which a
compiler may keep fresh.
-/
namespace Cascade

/-- Artifacts kept in memory under lower-case names. A name may also stand for one that cannot be
read. -/
structure Shelf where
  artifacts : Table String (Except IoError String)
  /-- What has been asked for, oldest first. -/
  requests : List (DefinitionKind × String)
  deriving Inhabited

structure World where
  files : Files
  shelf : Shelf
  entropy : Entropy
  /-- Tells things apart that are otherwise alike. -/
  nextSerial : Nat

/-- Why a definition could not be loaded. -/
inductive LoadError
  | read (path : String) (cause : IoError)
  | refresh (cause : BuildError)
  | decode (cause : DecodeError)
  deriving DecidableEq

/-- An artifact that cannot be decoded stays an error of its own kind. -/
def LoadError.toEvalError (kind : DefinitionKind) (name : String) : LoadError → EvalError
  | decode cause => .decode cause
  | read path cause => .load kind name ("failed to read " ++ path ++ ": " ++ cause.message)
  | refresh cause => .load kind name ("failed to refresh artifact: " ++ cause.message)

namespace World

def ofFiles (files : Files) (entropy : Entropy) : World := ⟨files, ⟨[], []⟩, entropy, 0⟩

def serial (w : World) : Nat × World := (w.nextSerial, { w with nextSerial := w.nextSerial + 1 })

end World

inductive Loader
  | shelf
  /-- Artifacts in the directory of a layout. With a compiler, a stale artifact is compiled first, if
  its source is there. -/
  | directory (config : Build.Config) (compiler : Option Build.CommandLine)

namespace Loader

def findIn (text : String) (kind : DefinitionKind) (name : String) :
    Except LoadError (Option Definition) :=
  match Artifact.decode text with
  | .error e => .error (.decode e)
  | .ok a => .ok (a.find? kind name)

def loadFromShelf (s : Shelf) (kind : DefinitionKind) (name : String) :
    Except LoadError (Option Definition) :=
  match s.artifacts.get? (Name.foldCase name) with
  | none => .ok none
  | some (.error e) => .error (.read "artifact" e)
  | some (.ok text) => findIn text kind name

def sourceFor? (layout : Build.Layout) (kind : DefinitionKind) (name : String) : Option String :=
  match kind with
  | .function => layout.functionSource? name
  | _ => layout.classSource? name

/-- Compiles a source if it is there and its artifact is stale. -/
def refresh (config : Build.Config) (compiler : Option Build.CommandLine) (source : String)
    (files : Files) : Except LoadError Unit × Files :=
  match compiler with
  | none => (.ok (), files)
  | some c =>
    if files.exists source then
      match (Build.ensureFresh config (c.compiler : Build.Compiler Unit) source).run (files, ()) with
      | (.ok _, files, _) => (.ok (), files)
      | (.error e, files, _) => (.error (.refresh e), files)
    else (.ok (), files)

def readArtifact (files : Files) (path : String) (kind : DefinitionKind) (name : String) :
    Except LoadError (Option Definition) :=
  match files.readOptional path with
  | .error e => .error (.read path e)
  | .ok none => .ok none
  | .ok (some text) => findIn text kind name

def loadFromDirectory (config : Build.Config) (compiler : Option Build.CommandLine) (files : Files)
    (kind : DefinitionKind) (name : String) : Except LoadError (Option Definition) × Files :=
  match sourceFor? config.layout kind name with
  | none => (.ok none, files)
  | some source =>
    match config.layout.artifactFor? source with
    | none => (.ok none, files)
    | some artifact =>
      match refresh config compiler source files with
      | (.error e, files) => (.error e, files)
      | (.ok _, files) => (readArtifact files artifact kind name, files)

/-- The definition of a kind and name, if anything defines it. -/
def load (l : Loader) (kind : DefinitionKind) (name : String) (w : World) :
    Except LoadError (Option Definition) × World :=
  match l with
  | shelf =>
    (loadFromShelf w.shelf kind name,
      { w with shelf := { w.shelf with requests := w.shelf.requests ++ [(kind, name)] } })
  | directory config compiler =>
    let (result, files) := loadFromDirectory config compiler w.files kind name
    (result, { w with files })

end Loader
end Cascade
