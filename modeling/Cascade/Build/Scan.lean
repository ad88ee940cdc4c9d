import Cascade.Build.Error
import Cascade.Build.Layout
/-!
Which artifacts are stale: those that are missing, and those older than the newest file anywhere in
the module tree.
-/
namespace Cascade.Build

/-- A source and the artifact it has to become. -/
structure Job where
  source : String
  artifact : String
  deriving DecidableEq, Inhabited

structure Tree where
  /-- The sources, in the order of their paths. -/
  sources : List String
  /-- The time of the newest file, whatever file it is. -/
  latest : Option Nat
  deriving DecidableEq, Inhabited

def pathKey (p : String) : List String := (Path.components p).map Path.componentText

/-- Paths in the order of their components. -/
def sortPaths (paths : List String) : List String :=
  paths.mergeSort fun a b => !decide (pathKey b < pathKey a)

def isSource (path : String) : Bool := Path.extension? path == some sourceExtension

def scan (files : Files) (root : String) : Tree :=
  let found := files.filesBelow root
  ⟨sortPaths ((found.map (·.1)).filter isSource), (found.map (·.2)).max?⟩

/-- The time of what a path names, if there is anything. -/
def modified? (files : Files) (path : String) : Except BuildError (Option Nat) :=
  match files.stat path with
  | .ok e => .ok (some e.modified)
  | .error .notFound => .ok none
  | .error e => .error (.io path e)

/-- An artifact is as good as its tree if nothing in the tree is newer. -/
def isStale : (artifact latest : Option Nat) → Bool
  | none, _ => true
  | some a, some t => a < t
  | some _, none => false

def jobsFor (l : Layout) (sources : List String) : List Job :=
  sources.filterMap fun source => (l.artifactFor? source).map fun artifact => ⟨source, artifact⟩

def staleJobs (files : Files) (latest : Option Nat) : List Job → Except BuildError (List Job)
  | [] => .ok []
  | job :: jobs => do
    let time ← modified? files job.artifact
    let rest ← staleJobs files latest jobs
    return if isStale time latest then job :: rest else rest

/-- What is to be compiled, and the time that made it stale. -/
structure Plan where
  jobs : List Job
  latest : Option Nat
  deriving DecidableEq, Inhabited

def plan (files : Files) (l : Layout) : Except BuildError Plan := do
  let tree := scan files l.modules
  return ⟨← staleJobs files tree.latest (jobsFor l tree.sources), tree.latest⟩

end Cascade.Build
