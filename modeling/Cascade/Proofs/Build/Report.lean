import Cascade.Proofs.Build.Batches
/-!
What is heard of a build: the batches that its compiler is called with, and how they are counted. Every
stale source is compiled in one of them, whatever comes of the others, and what is reported is what has
failed. That an artifact cannot be looked up stops a build before anything is compiled.
-/
namespace Cascade.Build

variable {ω : Type} {files : Files} {latest : Option Nat} {compiler : Compiler ω}
variable {batch : List Job} {batches : List (List Job)}

section Events

/-- What can be heard of a build. -/
inductive Event
  | call (batch : List Job)
  | progress (completed total : Nat)

def Event.call? : Event → Option (List Job)
  | call batch => some batch
  | progress .. => none

def Event.progress? : Event → Option (Nat × Nat)
  | call _ => none
  | progress completed total => some (completed, total)

/-- A compiler that tells what it is called with. -/
def Compiler.heard (compiler : Compiler ω) : Compiler (ω × List Event) := fun batch =>
  ExceptT.mk fun s =>
    let r := (compiler batch).run (s.1, s.2.1)
    (r.1, r.2.1, r.2.2, s.2.2 ++ [.call batch])

/-- Batches that are run one after another, each of which is counted when it has ended. -/
def runHeard (compiler : Compiler ω) (latest : Option Nat) (total : Nat) :
    (number : Nat) → List (List Job) → StateM (Files × ω × List Event) (List (Nat × BuildError))
  | _, [] => return []
  | number, batch :: batches => do
    let result ← (compileBatch compiler.heard latest batch).run
    modify fun s => (s.1, s.2.1, s.2.2 ++ [.progress (number + 1) total])
    let rest ← runHeard compiler latest total (number + 1) batches
    return match result with
      | .ok _ => rest
      | .error e => (number, e) :: rest

/-- What is heard of batches that are run one after another. -/
def eventsOf (total : Nat) : (number : Nat) → List (List Job) → List Event
  | _, [] => []
  | number, batch :: batches =>
    .call batch :: .progress (number + 1) total :: eventsOf total (number + 1) batches

theorem calls_eventsOf (total number : Nat) (batches : List (List Job)) :
    (eventsOf total number batches).filterMap Event.call? = batches := by
  induction batches generalizing number with
  | nil => rfl
  | cons batch batches ih =>
    rw [eventsOf, List.filterMap_cons_some (f := Event.call?) rfl,
      List.filterMap_cons_none (f := Event.call?) rfl, ih]

theorem progress_eventsOf (total number : Nat) (batches : List (List Job)) :
    (eventsOf total number batches).filterMap Event.progress? =
      (List.range batches.length).map fun i => (number + i + 1, total) := by
  induction batches generalizing number with
  | nil => rfl
  | cons batch batches ih =>
    rw [eventsOf, List.filterMap_cons_none (f := Event.progress?) rfl,
      List.filterMap_cons_some (f := Event.progress?) rfl, ih, List.length_cons,
      List.range_succ_eq_map, List.map_cons, List.map_map]
    simp [Function.comp_def, Nat.add_assoc, Nat.add_comm 1]

theorem run_compileBatch_heard {s : Files × ω × List Event} (h : Creatable batch s.1) :
    (compileBatch compiler.heard latest batch).run s =
      let r := (compileBatch compiler latest batch).run (s.1, s.2.1)
      (r.1, r.2.1, r.2.2, s.2.2 ++ [.call batch]) := by
  rw [run_compileBatch h, run_compileBatch (s := (s.1, s.2.1)) h, run_bind, run_bind]
  have hcall : (compiler.heard batch).run (withParents batch s.1, s.2) =
      let r := (compiler batch).run (withParents batch s.1, s.2.1)
      (r.1, r.2.1, r.2.2, s.2.2 ++ [.call batch]) := rfl
  rw [hcall]
  rcases (compiler batch).run (withParents batch s.1, s.2.1) with ⟨e | u, t⟩
  · rfl
  · dsimp only
    rw [blind_checkFresh latest batch _ t, blind_checkFresh latest batch _ (t.1, _)]

/-- A build does the same when it is heard, and every batch is heard to be compiled and counted. -/
theorem runHeard_eq {total number : Nat} {s : Files × ω × List Event}
    (h : Roomy compiler latest batches (s.1, s.2.1)) :
    runHeard compiler latest total number batches s =
      let r := runBatches compiler latest number batches (s.1, s.2.1)
      (r.1, r.2.1, r.2.2, s.2.2 ++ eventsOf total number batches) := by
  induction batches generalizing number s with
  | nil =>
    rw [eventsOf, List.append_nil]
    rfl
  | cons batch batches ih =>
    rw [runBatches_cons]
    change (let result := (compileBatch compiler.heard latest batch).run s
      let rest := runHeard compiler latest total (number + 1) batches
        (result.2.1, result.2.2.1, result.2.2.2 ++ [.progress (number + 1) total])
      (match result.1 with
        | .ok _ => rest.1
        | .error e => (number, e) :: rest.1, rest.2)) = _
    rw [run_compileBatch_heard h.head]
    dsimp only
    rw [ih h.tail]
    refine Prod.ext rfl (Prod.ext rfl (Prod.ext rfl ?_))
    simp [eventsOf]

/-- A build that can be heard. -/
def buildHeard (config : Config) (compiler : Compiler ω) : Building (ω × List Event) Report := do
  match plan (← filesNow) config.layout with
  | .error e => throw e
  | .ok p =>
    let batches := batchesOf config.batchSize p.jobs
    let failures ← (runHeard compiler p.latest batches.length 0 batches :
      StateM (Files × ω × List Event) _)
    return ⟨p.jobs.length, batches.length, failures⟩

theorem run_build_of_error {config : Config} {e : BuildError} {s : Files × ω}
    (h : plan s.1 config.layout = .error e) : (build config compiler).run s = (.error e, s) := by
  rw [build, run_bind, run_filesNow]
  simp only [h]
  rfl

theorem run_buildHeard_of_error {config : Config} {e : BuildError} {s : Files × ω × List Event}
    (h : plan s.1 config.layout = .error e) :
    (buildHeard config compiler).run s = (.error e, s) := by
  rw [buildHeard, run_bind, run_filesNow]
  simp only [h]
  rfl

/-- A build is the same if it is heard, and it is heard to compile and count its batches. -/
theorem run_buildHeard {config : Config} {p : Plan} {s : Files × ω × List Event}
    (hp : plan s.1 config.layout = .ok p)
    (hroom : Roomy compiler p.latest (batchesOf config.batchSize p.jobs) (s.1, s.2.1)) :
    let batches := batchesOf config.batchSize p.jobs
    let r := (build config compiler).run (s.1, s.2.1)
    (buildHeard config compiler).run s =
      (r.1, r.2.1, r.2.2, s.2.2 ++ eventsOf batches.length 0 batches) := by
  intro batches r
  have hr : r = _ := run_build hp
  rw [hr, buildHeard, run_bind, run_filesNow]
  simp only [hp]
  change (Except.ok (⟨_, _, (runHeard compiler p.latest batches.length 0 batches s).1⟩ : Report),
    (runHeard compiler p.latest batches.length 0 batches s).2) = _
  rw [runHeard_eq hroom]

end Events

section Complete

variable {config : Config} {w : ω}

open Classical in
/-- What a build has done when it has called its compiler with `calls`. -/
structure Report.Complete (report : Report) (config : Config) (compiler : Compiler ω) (files : Files)
    (w : ω) (calls : List (List Job)) : Prop where
  /-- The stale sources have been compiled, in their order. -/
  stale : calls.flatten.map Job.source =
    (scan files config.layout.modules).sources.filter fun s => Stale config.layout files s
  sorted : (calls.flatten.map Job.source).Pairwise fun a b => ¬pathKey b < pathKey a
  once : (calls.flatten.map Job.source).Nodup
  /-- Each has its own artifact. -/
  artifacts : ∀ job ∈ calls.flatten, config.layout.artifactFor? job.source = some job.artifact
  apart : (calls.flatten.map fun job => Path.components job.artifact).Nodup
  /-- The batches are as large as they may be. -/
  full : ∀ batch ∈ calls.dropLast, batch.length = config.batchSize
  filled : ∀ batch ∈ calls, batch ≠ [] ∧ batch.length ≤ config.batchSize
  compiled : report.compiled = calls.flatten.length
  batches : report.batches = calls.length
  /-- What has failed is reported, in the order of the batches. -/
  ordered : (report.failures.map (·.1)).Pairwise (· < ·)
  failures : ∀ i, i ∈ report.failures.map (·.1) ↔ ∃ batch, calls[i]? = some batch ∧
    Fails compiler (files.filesBelow config.layout.modules) batch
      (after compiler (scan files config.layout.modules).latest (calls.take i) (files, w))
  causes : ∀ i batch e, calls[i]? = some batch → (outcome compiler batch
    (after compiler (scan files config.layout.modules).latest (calls.take i) (files, w))).1 = .error e →
      (i, e) ∈ report.failures

theorem complete_of_build {report : Report} {s : Files × ω} (hf : files.WellFormed)
    (hp : plan files config.layout =
      .ok ⟨Build.stale files config.layout, (scan files config.layout.modules).latest⟩)
    (hroom : Roomy compiler (scan files config.layout.modules).latest
      (batchesOf config.batchSize (Build.stale files config.layout)) (files, w))
    (h : (build config compiler).run (files, w) = (.ok report, s)) :
    report.Complete config compiler files w
      (batchesOf config.batchSize (Build.stale files config.layout)) := by
  rw [run_build hp] at h
  obtain ⟨hreport, -⟩ := Prod.mk.inj h
  obtain rfl := Except.ok.inj hreport
  have hflatten := flatten_batchesOf config.batchSize (Build.stale files config.layout)
  have hsources := map_source_stale files config.layout
  have hsub : (Build.stale files config.layout).Sublist (treeJobs files config.layout) :=
    List.filter_sublist
  exact
    { stale := by rw [hflatten, hsources]
      sorted := by
        rw [hflatten, hsources]
        exact (pairwise_sortPaths _).filter _
      once := by
        rw [hflatten, hsources]
        exact (nodup_sources hf _).filter _
      artifacts := by
        rw [hflatten]
        exact fun job hj => (mem_jobsFor.mp (hsub.subset hj)).2
      apart := by
        rw [hflatten]
        exact (nodup_places_treeJobs hf config.layout).sublist (hsub.map _)
      full := fun batch hb => length_of_mem_dropLast config.batchSize_pos hb
      filled := fun batch hb =>
        ⟨ne_nil_of_mem_batchesOf hb, length_le_of_mem_batchesOf config.batchSize_pos hb⟩
      compiled := by rw [hflatten]
      batches := rfl
      ordered := pairwise_failures _ _ _ _ _
      failures := by
        intro i
        constructor
        · intro hi
          obtain ⟨⟨j, e⟩, hmem, rfl⟩ := List.mem_map.mp hi
          obtain ⟨batch, hb, he⟩ := mem_failures_start.mp hmem
          exact ⟨batch, hb, (fails_iff (hroom j batch hb)).mpr ⟨e, he⟩⟩
        · rintro ⟨batch, hb, hfails⟩
          obtain ⟨e, he⟩ := (fails_iff (hroom i batch hb)).mp hfails
          exact List.mem_map.mpr ⟨(i, e), mem_failures_start.mpr ⟨batch, hb, he⟩, rfl⟩
      causes := fun i batch e hb he =>
        mem_failures_start.mpr ⟨batch, hb, compileBatch_eq_error (hroom i batch hb) he⟩ }

/-- For every compiler and every tree: if all artifacts can be looked up, and the directories they are to
be in can be made when it is their turn, every stale source is compiled just once, in its order and in
batches of the size that is asked for, each of which is run whatever comes of the others; the batches are
counted one by one, and those that fail are reported. If an artifact cannot be looked up, nothing is
compiled. -/
theorem build_complete (config : Config) (compiler : Compiler ω) (files : Files) (w : ω)
    (hf : files.WellFormed) :
    ((∀ job ∈ treeJobs files config.layout, ∃ t, modified? files job.artifact = .ok t) →
      Roomy compiler (scan files config.layout.modules).latest
        (batchesOf config.batchSize (stale files config.layout)) (files, w) →
      ∃ report s events, (build config compiler).run (files, w) = (.ok report, s) ∧
        (buildHeard config compiler).run (files, w, []) = (.ok report, s.1, s.2, events) ∧
        report.Complete config compiler files w (events.filterMap Event.call?) ∧
        report.progress = events.filterMap Event.progress? ∧
        events.filterMap Event.progress? =
          (List.range report.batches).map fun i => (i + 1, report.batches)) ∧
    ∀ before job rest e, treeJobs files config.layout = before ++ job :: rest →
      (∀ own ∈ before, ∃ t, modified? files own.artifact = .ok t) →
      modified? files job.artifact = .error e →
        (build config compiler).run (files, w) = (.error e, files, w) ∧
        (buildHeard config compiler).run (files, w, []) = (.error e, files, w, []) := by
  refine ⟨fun hseen hroom => ?_, fun before job rest e hjobs hbefore he => ?_⟩
  · have hp := plan_eq_stale hseen
    have hbuild : (build config compiler).run (files, w) = _ := run_build hp
    have hheard := run_buildHeard (s := (files, w, [])) hp hroom
    rw [hbuild] at hheard
    refine ⟨_, _, _, hbuild, hheard, ?_, ?_, ?_⟩
    · rw [List.nil_append, calls_eventsOf]
      exact complete_of_build hf hp hroom hbuild
    · rw [List.nil_append, progress_eventsOf]
      simp [Report.progress]
    · rw [List.nil_append, progress_eventsOf]
      simp
  · have hp := plan_eq_error hjobs hbefore he
    exact ⟨run_build_of_error hp, run_buildHeard_of_error hp⟩

theorem seen_shed : ∀ job ∈ treeJobs shed shedConfig.layout,
    ∃ t, modified? shed job.artifact = .ok t := by
  have ha : modified? shed "c/a.json" = .ok none := by decide +kernel
  have hb : modified? shed "c/b.json" = .ok none := by decide +kernel
  simp [treeJobs_shed, ha, hb]

theorem stale_shed : stale shed shedConfig.layout =
    [⟨"m/a.pp", "c/a.json"⟩, ⟨"m/b.pp", "c/b.json"⟩] :=
  congrArg Plan.jobs (Except.ok.inj ((plan_eq_stale seen_shed).symm.trans plan_shed))

theorem roomy_shed : Roomy (stamper shedTime) (scan shed shedConfig.layout.modules).latest
    (batchesOf shedConfig.batchSize (stale shed shedConfig.layout)) (shed, ()) := by
  rw [stale_shed, batches_shed, scan_shed]
  intro i batch hi
  match i with
  | 0 =>
    obtain rfl := Option.some.inj hi
    change ((makeParents _).run _).1 = Except.ok ()
    decide +kernel
  | 1 =>
    obtain rfl := Option.some.inj hi
    change ((makeParents _).run _).1 = Except.ok ()
    decide +kernel
  | i + 2 => exact absurd hi (by simp)

/-- Both sources of the shed are compiled, one after the other. -/
theorem shed_complete :
    shed.WellFormed ∧
    (∀ job ∈ treeJobs shed shedConfig.layout, ∃ t, modified? shed job.artifact = .ok t) ∧
    Roomy (stamper shedTime) (scan shed shedConfig.layout.modules).latest
      (batchesOf shedConfig.batchSize (stale shed shedConfig.layout)) (shed, ()) ∧
    ∃ report s events,
      (build shedConfig (stamper shedTime)).run (shed, ()) = (.ok report, s) ∧
      (buildHeard shedConfig (stamper shedTime)).run (shed, (), []) = (.ok report, s.1, s.2, events) ∧
      report.Complete shedConfig (stamper shedTime) shed () (events.filterMap Event.call?) ∧
      report.progress = events.filterMap Event.progress? ∧
      events.filterMap Event.progress? =
        (List.range report.batches).map fun i => (i + 1, report.batches) :=
  ⟨shed_wellFormed, seen_shed, roomy_shed,
    (build_complete shedConfig (stamper shedTime) shed () shed_wellFormed).1 seen_shed roomy_shed⟩

def longStem : List Char := List.replicate 251 'x'

/-- A name that is short enough for a source, and too long for an artifact. -/
def longName (ext : String) : String := String.ofList longStem ++ "." ++ ext

def longSource : String := "m" ++ "/" ++ longName "pp"

/-- A tree with one source, in the directory that the artifacts are to be in. -/
def cellar : Files :=
  ⟨[(["m"], .directory 0), (["m", longName "pp"], .file (.text "") 5)], [], 0⟩

theorem toList_longName (ext : String) :
    (longName ext).toList = longStem ++ '.' :: ext.toList := by
  have hpoint : ".".toList = ['.'] := rfl
  rw [longName, String.toList_append, String.toList_append, String.toList_ofList, hpoint,
    List.append_assoc, List.singleton_append]

theorem isName_longName : Path.IsName (longName "pp") ∧ Path.IsName (longName "json") := by
  rw [Path.IsName, Path.IsName, toList_longName, toList_longName]
  decide +kernel

theorem splitExtension_longName : Path.splitExtension (longName "pp") =
    (String.ofList longStem, some "pp") := by
  rw [Path.splitExtension, toList_longName]
  decide +kernel

theorem isName_modules : Path.IsName "m" := by decide +kernel

theorem isSource_longSource : isSource longSource = true := by
  have hfile : Path.fileName? longSource = some (longName "pp") := by
    rw [Path.fileName?_eq_some, longSource, isName_longName.1.components_below isName_modules]
    rfl
  rw [isSource, Path.extension?, hfile, Option.bind_some, splitExtension_longName]
  rfl

theorem filesBelow_cellar : cellar.filesBelow "m" = [(longSource, 5)] := by
  have hplace : cellar.locate "m" = .ok ["m"] := by decide +kernel
  rw [Files.filesBelow, hplace]
  simp [cellar, longSource, isName_longName.1.join isName_modules]

theorem scan_cellar : (scan cellar "m").sources = [longSource] := by
  rw [scan, filesBelow_cellar]
  simp only [List.map_cons, List.map_nil, List.filter_cons_of_pos isSource_longSource, List.filter_nil]
  exact List.mergeSort_singleton _

theorem artifactFor?_longName : Layout.artifactFor? ⟨"m", ""⟩ longSource =
    some (longName "json") := by
  have hjoin : Path.join "" (longName "pp") = longName "pp" := by
    simp [Path.join, Path.isAbsolute_of_plain isName_longName.1.components.1]
  rw [Layout.artifactFor?, longSource, isName_longName.1.stripBase? isName_modules, Option.map_some, hjoin,
    isName_longName.1.withExtension, splitExtension_longName]
  rfl

theorem locate_longName : cellar.locate (longName "json") = .error .nameTooLong := by
  rw [Files.locate, Files.locatePieces, Path.pieces_of_slash_notMem isName_longName.2.1,
    Path.isAbsolute_of_plain isName_longName.2.components.1, toList_longName]
  decide +kernel

/-- The artifact of a source cannot be looked up, so that nothing is compiled, although the source is
stale and the directory of its artifact is there. -/
theorem long_name_refused :
    (scan cellar "m").sources = [longSource] ∧
      Stale ⟨"m", ""⟩ cellar longSource ∧
      Creatable [⟨longSource, longName "json"⟩] cellar ∧
      ∀ compiler : Compiler Unit, (buildHeard (.ofLayout ⟨"m", ""⟩) compiler).run (cellar, (), []) =
        (.error (.io (longName "json") .nameTooLong), cellar, (), []) := by
  have hlong : modified? cellar (longName "json") = .error (.io (longName "json") .nameTooLong) := by
    rw [modified?, Files.stat, locate_longName]
    rfl
  have hjobs : treeJobs cellar ⟨"m", ""⟩ = [] ++ ⟨longSource, longName "json"⟩ :: [] := by
    simp [treeJobs, scan_cellar, jobsFor, artifactFor?_longName]
  have hplan : plan cellar ⟨"m", ""⟩ = .error (.io (longName "json") .nameTooLong) :=
    plan_eq_error hjobs (fun _ h => absurd h List.not_mem_nil) hlong
  refine ⟨scan_cellar, ⟨_, artifactFor?_longName, fun hfresh => ?_⟩, ?_,
    fun compiler => run_buildHeard_of_error hplan⟩
  · obtain ⟨t, ht, -⟩ := fresh_iff.mp hfresh
    exact absurd (ht.symm.trans hlong) (by simp)
  · rw [creatable_singleton, makeParent, isName_longName.2.parent?]
    rfl

end Complete
end Cascade.Build
