import Cascade.Proofs.Build.Freshness
/-!
What is planned for a build and what comes of it batch by batch. The stale sources are cut into batches
in their order, and a batch fails just if the compiler says so or leaves an artifact that is not fresh.
-/
namespace Cascade.Build

variable {ω : Type} {l : Layout} {files : Files} {latest : Option Nat} {compiler : Compiler ω}
variable {batch : List Job} {batches : List (List Job)}

section Order

theorem pairwise_sortPaths (paths : List String) :
    (sortPaths paths).Pairwise fun a b => ¬pathKey b < pathKey a := by
  have hle (a b : String) : (!decide (pathKey b < pathKey a)) = true ↔ ¬pathKey b < pathKey a := by
    simp
  have hsorted : (sortPaths paths).Pairwise fun a b => (!decide (pathKey b < pathKey a)) = true := by
    refine List.pairwise_mergeSort (fun a b c hab hbc => ?_) (fun a b => ?_) paths
    · rw [hle] at hab hbc ⊢
      exact List.le_trans hab hbc
    · rw [Bool.or_eq_true_iff, hle, hle]
      exact List.le_total _ _
  exact hsorted.imp (hle _ _).mp

end Order

section Stale

/-- The artifact of a source is missing, or older than some file of the tree. -/
def Stale (l : Layout) (files : Files) (source : String) : Prop :=
  ∃ artifact, l.artifactFor? source = some artifact ∧
    ¬Fresh (files.filesBelow l.modules) files artifact

open Classical in
/-- The stale sources of a tree with their artifacts. -/
noncomputable def stale (files : Files) (l : Layout) : List Job :=
  (treeJobs files l).filter fun job => ¬Fresh (files.filesBelow l.modules) files job.artifact

open Classical in
theorem map_source_stale (files : Files) (l : Layout) : (stale files l).map Job.source =
    (scan files l.modules).sources.filter fun source => Stale l files source := by
  rw [stale, treeJobs]
  induction (scan files l.modules).sources with
  | nil => rfl
  | cons source sources ih =>
    cases ha : l.artifactFor? source with
    | none =>
      have hnot : ¬Stale l files source := by
        rintro ⟨artifact, h, -⟩
        exact absurd (ha.symm.trans h) (by simp)
      simpa [jobsFor, ha, hnot] using ih
    | some artifact =>
      have hiff : Stale l files source ↔ ¬Fresh (files.filesBelow l.modules) files artifact := by
        simp [Stale, ha]
      by_cases hfresh : Fresh (files.filesBelow l.modules) files artifact
      · simpa [jobsFor, ha, hiff, hfresh] using ih
      · simpa [jobsFor, ha, hiff, hfresh] using ih

open Classical in
theorem staleJobs_eq_filter {root : String} {jobs : List Job}
    (h : ∀ job ∈ jobs, ∃ t, modified? files job.artifact = .ok t) :
    staleJobs files (scan files root).latest jobs =
      .ok (jobs.filter fun job => ¬Fresh (files.filesBelow root) files job.artifact) := by
  induction jobs with
  | nil => rfl
  | cons job jobs ih =>
    obtain ⟨t, ht⟩ := h job List.mem_cons_self
    have hfresh : isStale t (scan files root).latest = true ↔
        ¬Fresh (files.filesBelow root) files job.artifact := by
      rw [fresh_iff, ht]
      cases t with
      | none => simp [isStale]
      | some t => simp
    rw [staleJobs, ht, ih fun j hj => h j (List.mem_cons_of_mem job hj)]
    simp only [Bind.bind, Except.bind, List.filter_cons, hfresh, decide_eq_true_eq]
    rfl

/-- A plan fails with the first artifact that cannot be looked up. -/
theorem staleJobs_eq_error {before rest : List Job} {job : Job} {e : BuildError}
    (h : ∀ own ∈ before, ∃ t, modified? files own.artifact = .ok t)
    (he : modified? files job.artifact = .error e) :
    staleJobs files latest (before ++ job :: rest) = .error e := by
  induction before with
  | nil =>
    rw [List.nil_append, staleJobs, he]
    rfl
  | cons own before ih =>
    obtain ⟨t, ht⟩ := h own List.mem_cons_self
    rw [List.cons_append, staleJobs, ht, ih fun j hj => h j (List.mem_cons_of_mem own hj)]
    rfl

/-- If every artifact can be looked up, the stale sources are planned, each in its place. -/
theorem plan_eq_stale (h : ∀ job ∈ treeJobs files l, ∃ t, modified? files job.artifact = .ok t) :
    plan files l = .ok ⟨stale files l, (scan files l.modules).latest⟩ := by
  have hjobs : staleJobs files (scan files l.modules).latest (treeJobs files l) =
      .ok (stale files l) := staleJobs_eq_filter h
  rw [treeJobs] at hjobs
  rw [plan, hjobs]
  rfl

/-- Otherwise nothing is planned. -/
theorem plan_eq_error {before rest : List Job} {job : Job} {e : BuildError}
    (hjobs : treeJobs files l = before ++ job :: rest)
    (h : ∀ own ∈ before, ∃ t, modified? files own.artifact = .ok t)
    (he : modified? files job.artifact = .error e) : plan files l = .error e := by
  have hplan : staleJobs files (scan files l.modules).latest (treeJobs files l) = .error e := by
    rw [hjobs]
    exact staleJobs_eq_error h he
  rw [treeJobs] at hplan
  rw [plan, hplan]
  rfl

end Stale

section Sizes

variable {jobs : List Job} {size : Nat}

theorem batchesOf_eq_nil : batchesOf size jobs = [] ↔ jobs = [] := by
  cases jobs <;> simp [batchesOf]

/-- Every batch but the last is full. -/
theorem length_of_mem_dropLast (hs : 0 < size) (h : batch ∈ (batchesOf size jobs).dropLast) :
    batch.length = size := by
  induction jobs using batchesOf.induct size with
  | case1 => simp [batchesOf] at h
  | case2 job jobs ih =>
    rw [batchesOf] at h
    by_cases hnil : jobs.drop (size - 1) = []
    · simp [hnil, batchesOf] at h
    · rw [List.dropLast_cons_of_ne_nil (mt batchesOf_eq_nil.mp hnil)] at h
      rcases List.mem_cons.mp h with rfl | h
      · rw [List.drop_eq_nil_iff, Nat.not_le] at hnil
        rw [List.length_cons, List.length_take]
        omega
      · exact ih h

theorem length_le_of_mem_batchesOf (hs : 0 < size) (h : batch ∈ batchesOf size jobs) :
    batch.length ≤ size := by
  induction jobs using batchesOf.induct size with
  | case1 => simp [batchesOf] at h
  | case2 job jobs ih =>
    rw [batchesOf] at h
    rcases List.mem_cons.mp h with rfl | h
    · rw [List.length_cons, List.length_take]
      omega
    · exact ih h

end Sizes

section Directories

theorem run_filesNow (s : Files × ω) : (filesNow : Building ω Files).run s = (.ok s.1, s) := rfl

/-- A step of a build that neither looks at what a compiler knows nor changes it. -/
def Blind (x : (ω : Type) → Building ω Unit) : Prop :=
  ∀ (ω : Type) (s : Files × ω), (x ω).run s =
    (((x Unit).run (s.1, ())).1, ((x Unit).run (s.1, ())).2.1, s.2)

theorem Blind.bind {x y : (ω : Type) → Building ω Unit} (hx : Blind x) (hy : Blind y) :
    Blind fun ω => x ω >>= fun _ => y ω := by
  intro ω s
  simp only [run_bind]
  rw [hx ω s]
  rcases (x Unit).run (s.1, ()) with ⟨e | u, t⟩
  · rfl
  · exact hy ω (t.1, s.2)

theorem blind_makeParent (path : String) : Blind fun _ => makeParent path := by
  intro ω s
  unfold makeParent
  split
  · rfl
  · simp only [run_bind, run_filesNow]
    split <;> rfl

/-- Makes the directories that some artifacts are to be in, one after another. -/
def makeParents (batch : List Job) : Building ω Unit :=
  batch.forM fun job => makeParent job.artifact

theorem blind_makeParents (batch : List Job) : Blind fun _ => makeParents batch := by
  induction batch with
  | nil => exact fun ω s => rfl
  | cons job batch ih => exact (blind_makeParent job.artifact).bind ih

/-- The directories that the artifacts of a batch are to be in are there or can be made. -/
def Creatable (batch : List Job) (files : Files) : Prop :=
  ((makeParents batch).run (files, ())).1 = .ok ()

theorem creatable_singleton {job : Job} : Creatable [job] files ↔
    ((makeParent job.artifact : Building Unit Unit).run (files, ())).1 = .ok () := by
  change ((makeParent job.artifact >>= fun _ => pure ()).run (files, ())).1 = _ ↔ _
  rw [run_bind]
  rcases (makeParent job.artifact : Building Unit Unit).run (files, ()) with ⟨e | u, t⟩
  · exact .rfl
  · exact .rfl

/-- The files once those directories are there. -/
def withParents (batch : List Job) (files : Files) : Files :=
  ((makeParents batch).run (files, ())).2.1

theorem run_compileBatch {s : Files × ω} (h : Creatable batch s.1) :
    (compileBatch compiler latest batch).run s =
      (compiler batch >>= fun _ => checkFresh latest batch).run (withParents batch s.1, s.2) := by
  change (makeParents batch >>= fun _ => _).run s = _
  rw [run_bind, blind_makeParents batch ω s, h]
  rfl

/-- A check passes if every artifact is fresh. -/
theorem run_checkFresh_ok_iff {root : String} {s : Files × ω} :
    (checkFresh (scan files root).latest batch).run s = (.ok (), s) ↔
      ∀ job ∈ batch, Fresh (files.filesBelow root) s.1 job.artifact := by
  simp only [fresh_iff]
  refine ⟨fun h => (checkFresh_eq_ok h).2, fun h => ?_⟩
  induction batch with
  | nil => rfl
  | cons job batch ih =>
    obtain ⟨t, ht, hs⟩ := h job List.mem_cons_self
    have hrest := ih fun j hj => h j (List.mem_cons_of_mem job hj)
    rw [checkFresh, run_bind, run_filesNow]
    simp only [ht, hs]
    exact hrest

theorem blind_checkFresh (latest : Option Nat) (batch : List Job) :
    Blind fun _ => checkFresh latest batch := by
  intro ω s
  induction batch with
  | nil => rfl
  | cons job batch ih =>
    simp only [checkFresh, run_bind, run_filesNow]
    split
    · rfl
    · rfl
    · split
      · rfl
      · exact ih

theorem run_checkFresh_snd (latest : Option Nat) (batch : List Job) (s : Files × ω) :
    ((checkFresh latest batch).run s).2 = s := by
  induction batch with
  | nil => rfl
  | cons job batch ih =>
    rw [checkFresh, run_bind, run_filesNow]
    dsimp only
    split
    · rfl
    · rfl
    · split
      · rfl
      · exact ih

end Directories

section Runs

/-- What some batches leave behind. -/
def after (compiler : Compiler ω) (latest : Option Nat) (batches : List (List Job))
    (s : Files × ω) : Files × ω :=
  batches.foldl (fun s batch => ((compileBatch compiler latest batch).run s).2) s

/-- Whenever the turn of a batch comes, the directories that its artifacts are to be in can be made. -/
def Roomy (compiler : Compiler ω) (latest : Option Nat) (batches : List (List Job))
    (s : Files × ω) : Prop :=
  ∀ i batch, batches[i]? = some batch →
    Creatable batch (after compiler latest (batches.take i) s).1

variable {s : Files × ω}

theorem Roomy.head (h : Roomy compiler latest (batch :: batches) s) : Creatable batch s.1 :=
  h 0 batch rfl

theorem Roomy.tail (h : Roomy compiler latest (batch :: batches) s) :
    Roomy compiler latest batches ((compileBatch compiler latest batch).run s).2 :=
  fun i later hi => h (i + 1) later hi

theorem le_of_mem_failures {number : Nat} {failure : Nat × BuildError}
    (h : failure ∈ (runBatches compiler latest number batches s).1) : number ≤ failure.1 := by
  induction batches generalizing number s with
  | nil => exact absurd h List.not_mem_nil
  | cons batch batches ih =>
    rw [runBatches_cons] at h
    dsimp only at h
    split at h
    · exact Nat.le_of_succ_le (ih h)
    · rcases List.mem_cons.mp h with rfl | h
      · exact Nat.le_refl number
      · exact Nat.le_of_succ_le (ih h)

/-- The failures of a run are in the order of the batches. -/
theorem pairwise_failures (compiler : Compiler ω) (latest : Option Nat) (number : Nat)
    (batches : List (List Job)) (s : Files × ω) :
    ((runBatches compiler latest number batches s).1.map (·.1)).Pairwise (· < ·) := by
  induction batches generalizing number s with
  | nil => exact .nil
  | cons batch batches ih =>
    rw [runBatches_cons]
    dsimp only
    split
    · exact ih (number + 1) _
    · refine List.pairwise_cons.mpr ⟨fun later hl => ?_, ih (number + 1) _⟩
      obtain ⟨failure, hf, rfl⟩ := List.mem_map.mp hl
      exact le_of_mem_failures hf

/-- The failures of a run are the batches that end in an error. -/
theorem mem_failures {number i : Nat} {e : BuildError} :
    (number + i, e) ∈ (runBatches compiler latest number batches s).1 ↔
      ∃ batch, batches[i]? = some batch ∧ ((compileBatch compiler latest batch).run
        (after compiler latest (batches.take i) s)).1 = .error e := by
  induction batches generalizing number i s with
  | nil => exact ⟨fun h => absurd h List.not_mem_nil, fun ⟨_, h, _⟩ => absurd h nofun⟩
  | cons batch batches ih =>
    have hlater (e : BuildError) : (number, e) ∉ (runBatches compiler latest (number + 1) batches
        ((compileBatch compiler latest batch).run s).2).1 :=
      fun h => absurd (le_of_mem_failures h) (Nat.not_succ_le_self number)
    rw [runBatches_cons]
    cases i with
    | zero =>
      rcases hrun : (compileBatch compiler latest batch).run s with ⟨e' | u, t⟩
      · rw [hrun] at hlater
        simp [after, hrun, hlater, eq_comm]
      · rw [hrun] at hlater
        simp [after, hrun, hlater]
    | succ i =>
      let next := ((compileBatch compiler latest batch).run s).2
      have hrest := @ih next (number + 1) i
      rw [Nat.add_right_comm, Nat.add_assoc] at hrest
      rw [List.getElem?_cons_succ, List.take_succ_cons]
      change _ ↔ ∃ later, batches[i]? = some later ∧
        ((compileBatch compiler latest later).run (after compiler latest (batches.take i) next)).1 = _
      rw [← hrest]
      dsimp only
      split
      · exact .rfl
      · simp [next]

theorem mem_failures_start {i : Nat} {e : BuildError} :
    (i, e) ∈ (runBatches compiler latest 0 batches s).1 ↔
      ∃ batch, batches[i]? = some batch ∧ ((compileBatch compiler latest batch).run
        (after compiler latest (batches.take i) s)).1 = .error e := by
  rw [← mem_failures, Nat.zero_add]

/-- What the compiler does with a batch, once there are directories for its artifacts. -/
def outcome (compiler : Compiler ω) (batch : List Job) (s : Files × ω) :
    Except BuildError Unit × Files × ω :=
  (compiler batch).run (withParents batch s.1, s.2)

/-- A batch fails if the compiler says so, or if an artifact of it is not fresh when it has ended. -/
def Fails (compiler : Compiler ω) (tree : List (String × Nat)) (batch : List Job)
    (s : Files × ω) : Prop :=
  (∃ e, (outcome compiler batch s).1 = .error e) ∨
    ∃ job ∈ batch, ¬Fresh tree (outcome compiler batch s).2.1 job.artifact

/-- That is, if the batch ends in an error. -/
theorem fails_iff {root : String} (h : Creatable batch s.1) :
    Fails compiler (files.filesBelow root) batch s ↔
      ∃ e, ((compileBatch compiler (scan files root).latest batch).run s).1 = .error e := by
  rw [run_compileBatch h, run_bind, Fails, outcome]
  rcases (compiler batch).run (withParents batch s.1, s.2) with ⟨e | u, t⟩
  · simp
  · have hcheck : _ ↔ ∀ job ∈ batch, Fresh (files.filesBelow root) t.1 job.artifact :=
      run_checkFresh_ok_iff (s := t)
    have hsame := run_checkFresh_snd (scan files root).latest batch t
    dsimp only
    rcases hr : (checkFresh (scan files root).latest batch).run t with ⟨e | u, t'⟩
    · rw [hr] at hcheck
      have hstale : ¬∀ job ∈ batch, Fresh (files.filesBelow root) t.1 job.artifact :=
        fun h => absurd (Prod.mk.inj (hcheck.mpr h)).1 nofun
      simpa using hstale
    · rw [hr] at hcheck hsame
      obtain rfl : t' = t := hsame
      simpa using hcheck.mp rfl

/-- The error of the compiler is that of the batch. -/
theorem compileBatch_eq_error {e : BuildError} (h : Creatable batch s.1)
    (he : (outcome compiler batch s).1 = .error e) :
    ((compileBatch compiler latest batch).run s).1 = .error e := by
  rw [outcome] at he
  rw [run_compileBatch h, run_bind]
  rcases hr : (compiler batch).run (withParents batch s.1, s.2) with ⟨e' | u, t⟩
  · rwa [hr] at he
  · simp [hr] at he

end Runs

end Cascade.Build
