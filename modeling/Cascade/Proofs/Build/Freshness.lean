import Cascade.Node.World
import Cascade.Proofs.Build.Scan
import Cascade.Proofs.Run
/-!
What a build promises, whatever its compiler does. A batch that is not reported as failed has all of
its artifacts, none of them older than the tree, and later batches leave them alone, since no two
sources have the same artifact. So a build without failures leaves nothing to do.
-/
namespace Cascade.Build

variable {ω α β : Type} {l : Layout} {files : Files} {s s' : Files × ω} {latest : Option Nat}
variable {compiler : Compiler ω} {batch : List Job} {batches : List (List Job)}

section Batches

variable {jobs : List Job} {size : Nat}

/-- Batches hold every job once, in the order of the jobs. -/
theorem flatten_batchesOf (size : Nat) (jobs : List Job) :
    (batchesOf size jobs).flatten = jobs := by
  induction jobs using batchesOf.induct size with
  | case1 => rw [batchesOf, List.flatten_nil]
  | case2 job jobs ih =>
    rw [batchesOf, List.flatten_cons, ih, List.cons_append, List.take_append_drop]

theorem ne_nil_of_mem_batchesOf (h : batch ∈ batchesOf size jobs) : batch ≠ [] := by
  induction jobs using batchesOf.induct size with
  | case1 =>
    rw [batchesOf] at h
    exact absurd h List.not_mem_nil
  | case2 job jobs ih =>
    rw [batchesOf] at h
    rcases List.mem_cons.mp h with rfl | h
    · exact List.cons_ne_nil _ _
    · exact ih h

end Batches

/-- What holds of the files before a step of a build holds after it, whether it succeeds or not. -/
def Maintains (P : Files → Prop) (x : Building ω α) : Prop := ∀ s, P s.1 → P (x.run s).2.1

/-- What new directories leave true. -/
def Lasting (P : Files → Prop) : Prop := ∀ a b : Files, a.Sprouts b → P a → P b

section Maintains

variable {P : Files → Prop}

theorem Maintains.pure (a : α) : Maintains P (Pure.pure a : Building ω α) := fun _ h => h

theorem Maintains.error (e : BuildError) : Maintains P (throw e : Building ω α) := fun _ h => h

theorem Maintains.bind {x : Building ω α} {f : α → Building ω β} (hx : Maintains P x)
    (hf : ∀ a, Maintains P (f a)) : Maintains P (x >>= f) :=
  Cascade.Maintains.bind (P := fun s : Files × ω => P s.1) hx hf

/-- What looks at the files sees those that `P` holds of. -/
theorem Maintains.look {f : Files → Building ω α}
    (hf : ∀ s : Files × ω, P s.1 → P ((f s.1).run s).2.1) : Maintains P (filesNow >>= f) := hf

theorem Maintains.forM {f : Job → Building ω Unit} (h : ∀ job ∈ batch, Maintains P (f job)) :
    Maintains P (batch.forM f) := by
  induction batch with
  | nil => exact .pure ()
  | cons job batch ih =>
    exact .bind (h job List.mem_cons_self) fun _ => ih fun j hj => h j (List.mem_cons_of_mem job hj)

end Maintains

/-- What a batch is checked for, it has. -/
theorem checkFresh_eq_ok (h : (checkFresh latest batch).run s = (.ok (), s')) : s' = s ∧
    ∀ job ∈ batch, ∃ t, modified? s.1 job.artifact = .ok (some t) ∧
      isStale (some t) latest = false := by
  induction batch with
  | nil => exact ⟨(Prod.mk.inj h).2.symm, fun job hj => absurd hj List.not_mem_nil⟩
  | cons job batch ih =>
    rw [checkFresh, run_bind_eq_ok] at h
    obtain ⟨a, t, hfiles, h⟩ := h
    obtain ⟨ha, rfl⟩ := Prod.mk.inj hfiles
    obtain rfl := Except.ok.inj ha
    split at h
    · exact absurd (Prod.mk.inj h).1 nofun
    · exact absurd (Prod.mk.inj h).1 nofun
    next time hnone htime =>
      split at h
      · exact absurd (Prod.mk.inj h).1 nofun
      next hstale =>
        obtain ⟨hs, hrest⟩ := ih h
        refine ⟨hs, fun job' hj => ?_⟩
        rcases List.mem_cons.mp hj with rfl | hj
        · cases time with
          | none => exact absurd rfl hnone
          | some t => exact ⟨t, htime, by simpa using hstale⟩
        · exact hrest job' hj

theorem compileBatch_eq_ok (h : (compileBatch compiler latest batch).run s = (.ok (), s')) :
    ∀ job ∈ batch, ∃ t, modified? s'.1 job.artifact = .ok (some t) ∧
      isStale (some t) latest = false := by
  obtain ⟨-, made, -, h⟩ := run_bind_eq_ok.mp h
  obtain ⟨-, compiled, -, h⟩ := run_bind_eq_ok.mp h
  obtain ⟨rfl, hfresh⟩ := checkFresh_eq_ok h
  exact hfresh

/-- A batch is reported under its number if it failed; those after it run in any case. -/
theorem runBatches_cons (compiler : Compiler ω) (latest : Option Nat) (number : Nat)
    (batch : List Job) (batches : List (List Job)) (s : Files × ω) :
    runBatches compiler latest number (batch :: batches) s =
      let result := (compileBatch compiler latest batch).run s
      let rest := runBatches compiler latest (number + 1) batches result.2
      (match result.1 with
        | .ok _ => rest.1
        | .error e => (number, e) :: rest.1, rest.2) := rfl

section Confined

variable {job : Job}

namespace Compiler.Confined

end Compiler.Confined
end Confined

section Stamper

/-- Writes an artifact with the time that its source has in `time`, or not at all. -/
def stamp (time : String → Option Nat) (job : Job) : Building ω Unit := do
  match time job.source with
  | none => pure ()
  | some t =>
    match (← filesNow).writeAt job.artifact (.text "") t with
    | .error e => throw (.io job.artifact e)
    | .ok files => modify fun s => (files, s.2)

def stamper (time : String → Option Nat) : Compiler ω := fun batch => batch.forM (stamp time)

variable {P : Files → Prop} {time : String → Option Nat} {job : Job}

end Stamper

theorem run_build {config : Config} {p : Plan} (hp : plan s.1 config.layout = .ok p) :
    let batches := batchesOf config.batchSize p.jobs
    let run := runBatches compiler p.latest 0 batches s
    (build config compiler).run s = (.ok ⟨p.jobs.length, batches.length, run.1⟩, run.2) := by
  have hfiles : (filesNow : Building ω Files).run s = (.ok s.1, s) := rfl
  rw [build, run_bind, hfiles]
  simp only [hp]
  rfl

/-- Whatever a compiler does, a source that was found or made fresh has an artifact that is not
older than the tree it was judged by. -/
theorem fresh_of_ensureFresh {config : Config} {source : String} {ran : Bool}
    (h : (ensureFresh config compiler source).run s = (.ok ran, s')) :
    ∃ artifact, config.layout.artifactFor? source = some artifact ∧
      Fresh (s.1.filesBelow config.layout.modules) s'.1 artifact := by
  unfold ensureFresh at h
  split at h
  · exact absurd (Prod.mk.inj h).1 (by simp)
  next artifact ha =>
    refine ⟨artifact, ha, ?_⟩
    obtain ⟨a, t, hfiles, h⟩ := run_bind_eq_ok.mp h
    obtain ⟨hsame, rfl⟩ := Prod.mk.inj hfiles
    obtain rfl := Except.ok.inj hsame
    dsimp only at h
    split at h
    · exact absurd (Prod.mk.inj h).1 (by simp)
    next time htime =>
      split at h
      next =>
        obtain ⟨u, t, hbatch, h⟩ := run_bind_eq_ok.mp h
        obtain ⟨-, rfl⟩ := Prod.mk.inj h
        rw [run_tryCatch] at hbatch
        split at hbatch
        next hrun =>
          obtain ⟨-, rfl⟩ := Prod.mk.inj hbatch
          exact fresh_iff.mpr (compileBatch_eq_ok hrun ⟨source, artifact⟩ List.mem_cons_self)
        next => exact absurd (Prod.mk.inj hbatch).1 (by simp)
      next hfresh =>
        obtain ⟨-, rfl⟩ := Prod.mk.inj h
        cases time with
        | none => exact absurd rfl hfresh
        | some t => exact fresh_iff.mpr ⟨t, htime, by simpa using hfresh⟩

/-- A loader with a compiler decodes an artifact only if it is fresh. -/
theorem fresh_of_loadFromDirectory {config : Config} {command : CommandLine} {files' : Files}
    {kind : DefinitionKind} {name source artifact : String} {result : Option Definition}
    (hs : Loader.sourceFor? config.layout kind name = some source)
    (ha : config.layout.artifactFor? source = some artifact) (he : files.exists source = true)
    (h : Loader.loadFromDirectory config (some command) files kind name = (.ok result, files')) :
    Loader.readArtifact files' artifact kind name = .ok result ∧
      Fresh (files.filesBelow config.layout.modules) files' artifact := by
  unfold Loader.loadFromDirectory at h
  simp only [hs, ha] at h
  split at h
  · exact absurd (Prod.mk.inj h).1 nofun
  next refreshed hrefresh =>
    obtain ⟨hread, rfl⟩ := Prod.mk.inj h
    refine ⟨hread, ?_⟩
    unfold Loader.refresh at hrefresh
    simp only [he, ↓reduceIte] at hrefresh
    split at hrefresh
    next ran found w hrun =>
      obtain ⟨-, rfl⟩ := Prod.mk.inj hrefresh
      obtain ⟨artifact', ha', hfresh⟩ := fresh_of_ensureFresh hrun
      obtain rfl := Option.some.inj (ha'.symm.trans ha)
      exact hfresh
    next => exact absurd (Prod.mk.inj hrefresh).1 nofun

/-- A tree of two sources, for which nothing has been compiled yet. -/
def shed : Files :=
  ((Files.empty [] 0).addFile "m/a.pp" (.text "") (some 5)).addFile "m/b.pp" (.text "") (some 7)

/-- One source at a time. -/
def shedConfig : Config := (Config.ofLayout ⟨"m", "c"⟩).withBatchSize 1

/-- The first artifact is as new as the tree, the second older than its source. -/
def shedTime (source : String) : Option Nat := if source = "m/a.pp" then some 7 else some 6

theorem scan_shed : scan shed shedConfig.layout.modules = ⟨["m/a.pp", "m/b.pp"], some 7⟩ := by
  have hfound : shed.filesBelow shedConfig.layout.modules = [("m/a.pp", 5), ("m/b.pp", 7)] := by
    decide +kernel
  have hsources : ["m/a.pp", "m/b.pp"].filter isSource = ["m/a.pp", "m/b.pp"] := by decide +kernel
  have hsort : sortPaths ["m/a.pp", "m/b.pp"] = ["m/a.pp", "m/b.pp"] :=
    List.mergeSort_of_pairwise (by decide +kernel)
  simp only [scan, hfound, List.map_cons, List.map_nil, hsources, hsort]
  rfl

theorem treeJobs_shed : treeJobs shed shedConfig.layout =
    [⟨"m/a.pp", "c/a.json"⟩, ⟨"m/b.pp", "c/b.json"⟩] := by
  rw [treeJobs, scan_shed]
  decide +kernel

theorem plan_shed : plan shed shedConfig.layout =
    .ok ⟨[⟨"m/a.pp", "c/a.json"⟩, ⟨"m/b.pp", "c/b.json"⟩], some 7⟩ := by
  have hstale : staleJobs shed (some 7) (jobsFor shedConfig.layout ["m/a.pp", "m/b.pp"]) =
      .ok [⟨"m/a.pp", "c/a.json"⟩, ⟨"m/b.pp", "c/b.json"⟩] := by decide +kernel
  rw [plan, scan_shed]
  dsimp only
  rw [hstale]
  rfl

theorem batches_shed : batchesOf shedConfig.batchSize
    [⟨"m/a.pp", "c/a.json"⟩, ⟨"m/b.pp", "c/b.json"⟩] =
      [[⟨"m/a.pp", "c/a.json"⟩], [⟨"m/b.pp", "c/b.json"⟩]] := by
  have hsize : shedConfig.batchSize = 1 := rfl
  simp [hsize, batchesOf]

theorem shed_wellFormed : shed.WellFormed :=
  ((Files.WellFormed.empty (fun _ hs => absurd hs List.not_mem_nil) 0).addFile _ _ _).addFile _ _ _

end Cascade.Build
