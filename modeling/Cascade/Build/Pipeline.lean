import Cascade.Build.Config
import Cascade.Build.Scan
/-!
Builds. The stale sources go to the compiler in batches; a batch counts as done only if every artifact
of it is afterwards there and new enough, whatever the compiler says. A failed batch does not stop the
others.

A compiler is anything that changes files; `ω` is what else it may know and change.
-/
namespace Cascade.Build

abbrev Building (ω : Type) := ExceptT BuildError (StateM (Files × ω))

abbrev Compiler (ω : Type) := List Job → Building ω Unit

structure Report where
  /-- How many sources went to the compiler. -/
  compiled : Nat
  batches : Nat
  /-- The failed batches with their numbers and causes. -/
  failures : List (Nat × BuildError)
  deriving DecidableEq, Inhabited

/-- How the count of finished batches went up to their total. -/
def Report.progress (r : Report) : List (Nat × Nat) :=
  (List.range r.batches).map fun i => (i + 1, r.batches)

/-- Cuts a list into pieces of one size; the last piece may be shorter, but never empty. -/
def batchesOf (size : Nat) : List Job → List (List Job)
  | [] => []
  | job :: jobs => (job :: jobs.take (size - 1)) :: batchesOf size (jobs.drop (size - 1))
termination_by jobs => jobs.length

variable {ω : Type}

def filesNow : Building ω Files := return (← get).1

def makeParent (path : String) : Building ω Unit := do
  match Path.parent? path with
  | none => pure ()
  | some parent =>
    match (← filesNow).makeDirectories parent with
    | .error e => throw (.io parent e)
    | .ok files => modify fun s => (files, s.2)

/-- Every artifact has to be there and new enough. -/
def checkFresh (latest : Option Nat) : List Job → Building ω Unit
  | [] => pure ()
  | job :: jobs => do
    match modified? (← filesNow) job.artifact with
    | .error e => throw e
    | .ok none => throw (.compiler "compiler" ("did not produce " ++ job.artifact))
    | .ok time =>
      if isStale time latest then throw (.compiler "compiler" ("did not refresh " ++ job.artifact))
      else checkFresh latest jobs

def compileBatch (compiler : Compiler ω) (latest : Option Nat) (batch : List Job) :
    Building ω Unit := do
  batch.forM fun job => makeParent job.artifact
  compiler batch
  checkFresh latest batch

def runBatches (compiler : Compiler ω) (latest : Option Nat) :
    (number : Nat) → List (List Job) → StateM (Files × ω) (List (Nat × BuildError))
  | _, [] => return []
  | number, batch :: batches => do
    let result ← (compileBatch compiler latest batch).run
    let rest ← runBatches compiler latest (number + 1) batches
    return match result with
      | .ok _ => rest
      | .error e => (number, e) :: rest

/-- Compiles every stale source. -/
def build (config : Config) (compiler : Compiler ω) : Building ω Report := do
  match plan (← filesNow) config.layout with
  | .error e => throw e
  | .ok p =>
    let batches := batchesOf config.batchSize p.jobs
    let failures ← (runBatches compiler p.latest 0 batches : StateM (Files × ω) _)
    return ⟨p.jobs.length, batches.length, failures⟩

/-- Compiles a source now if its artifact is stale, and tells whether it was. -/
def ensureFresh (config : Config) (compiler : Compiler ω) (source : String) : Building ω Bool := do
  match config.layout.artifactFor? source with
  | none => throw (.outsideModules source)
  | some artifact =>
    let files ← filesNow
    let latest := (scan files config.layout.modules).latest
    match modified? files artifact with
    | .error e => throw e
    | .ok time =>
      if isStale time latest then
        tryCatch (compileBatch compiler latest [⟨source, artifact⟩]) fun e => throw (.batch 0 e)
        return true
      else return false

end Cascade.Build
