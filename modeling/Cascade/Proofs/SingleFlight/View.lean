import Cascade.Proofs.SingleFlight.Run
/-!
The view of a system, and all that a move can do to it. What a run preserves is proved from here,
one case for each kind of effect.
-/
namespace Cascade.SingleFlight

variable {θ κ ν ε : Type}

structure View (θ κ ν ε : Type) where
  cache : SingleFlight θ κ ν ε
  loads : θ → List (Load κ ν ε)
  stage : θ → Stage θ κ ν ε

section

variable [DecidableEq θ] [DecidableEq κ]

def System.view (s : System θ κ ν ε) : View θ κ ν ε := ⟨s.cache, s.loads, s.stage⟩

/-- What a step of the thread `me` can do to a view, with the deed that it is. -/
inductive Effect (v : View θ κ ν ε) (me : θ) : Option (Deed κ ν ε) → View θ κ ν ε → Prop
  | nothing : Effect v me none v
  | publishes (f : Nat) (w : ν) : Effect v me none { v with cache := v.cache.publish f w }
  | evicts (key : κ) : Effect v me (some (.evicts key)) { v with cache := v.cache.invalidate key }
  | clears : Effect v me (some .clears) { v with cache := v.cache.clear }
  | begins {key : κ} (ending : Ending ν ε) (hp : v.stage me = .ready)
      (hs : v.cache.slots.get? key = none) :
      Effect v me (some (.begins key v.cache.flights.length))
        { cache := { v.cache with
            slots := v.cache.slots.set key (.loading v.cache.flights.length)
            flights := v.cache.flights.set v.cache.flights.length ⟨me, none, .running⟩ }
          loads := Function.update v.loads me
            (⟨key, v.cache.flights.length, ending⟩ :: v.loads me)
          stage := v.stage }
  | waits {p : Pending θ κ ν ε} {flight : Flight θ ν ε} (hp : v.stage me = .ready)
      (hs : v.cache.slots.get? p.key = some (.loading p.flight))
      (hf : v.cache.flights.get? p.flight = some flight) (ho : flight.owner ≠ me)
      (hd : v.cache.wouldDeadlock flight.owner me = false) :
      Effect v me none { v with
        cache := { v.cache with waiting := v.cache.waiting.set me p.key }
        stage := Function.update v.stage me (.waiting p) }
  | ends {l : Load κ ν ε} {rest : List (Load κ ν ε)} (hp : v.stage me = .ready)
      (hl : v.loads me = l :: rest) :
      Effect v me (some (.ends l))
        { cache := System.storeEnding v.cache l
          loads := Function.update v.loads me rest
          stage := Function.update v.stage me (.telling l) }
  | tells {l : Load κ ν ε} (hl : v.stage me = .telling l) :
      Effect v me none { v with
        cache := System.finishEnding v.cache l
        stage := Function.update v.stage me .ready }
  | wakes {p : Pending θ κ ν ε} {flight : Flight θ ν ε} (hp : v.stage me = .waiting p)
      (hf : v.cache.flights.get? p.flight = some flight) (hd : flight.state ≠ .running) :
      Effect v me none { v with
        cache := v.cache.awaken me
        stage := Function.update v.stage me .ready }

end

namespace System

section

variable [DecidableEq θ] {s : System θ κ ν ε} {me : θ} {t u : Thread θ κ ν ε}

theorem loads_of_get? (h : s.threads.get? me = some t) : s.loads me = t.loads := by
  simp [loads, h]

theorem stage_of_get? (h : s.threads.get? me = some t) : s.stage me = t.stage := by
  simp [stage, h]

theorem view_put (s : System θ κ ν ε) (me : θ) (t : Thread θ κ ν ε) (c : SingleFlight θ κ ν ε) :
    (s.put me t c).view =
      ⟨c, Function.update s.loads me t.loads, Function.update s.stage me t.stage⟩ := by
  simp only [view, put, View.mk.injEq, true_and]
  constructor
  · funext a
    by_cases h : a = me
    · subst h; simp [loads]
    · simp [loads, Function.update, h, Table.get?_set, Ne.symm h]
  · funext a
    by_cases h : a = me
    · subst h; simp [stage]
    · simp [stage, Function.update, h, Table.get?_set, Ne.symm h]

theorem view_put_loads (ht : s.threads.get? me = some t) (hp : u.stage = t.stage)
    (c : SingleFlight θ κ ν ε) :
    (s.put me u c).view =
      { s.view with cache := c, loads := Function.update s.loads me u.loads } := by
  rw [view_put, hp, ← stage_of_get? ht, Function.update_eq_self]
  rfl

theorem view_put_stage (ht : s.threads.get? me = some t) (hl : u.loads = t.loads)
    (c : SingleFlight θ κ ν ε) :
    (s.put me u c).view =
      { s.view with cache := c, stage := Function.update s.stage me u.stage } := by
  rw [view_put, hl, ← loads_of_get? ht, Function.update_eq_self]
  rfl

theorem view_put_cache (ht : s.threads.get? me = some t) (hl : u.loads = t.loads)
    (hp : u.stage = t.stage) (c : SingleFlight θ κ ν ε) :
    (s.put me u c).view = { s.view with cache := c } := by
  rw [view_put_loads ht hp, hl, ← loads_of_get? ht, Function.update_eq_self]
  rfl

theorem view_fork {a : θ} (ha : s.threads.get? a = none) (commands : List (Command θ κ ν ε)) :
    (s.put a (.start commands) s.cache).view = s.view := by
  have hl : s.loads a = [] := by simp [loads, ha]
  have hp : s.stage a = .ready := by simp [stage, ha]
  rw [view_put, Thread.loads_start, Thread.stage_start, ← hl, ← hp]
  simp only [Function.update_eq_self]
  rfl

end

variable [DecidableEq θ] [DecidableEq κ] {s : System θ κ ν ε} {me : θ} {t u : Thread θ κ ν ε}

/-- A request finds a value, a load that is answered for, a load to wait for or an empty slot. -/
theorem request_effect (ht : s.threads.get? me = some t) (hp : t.stage = .ready)
    (hl : u.loads = t.loads) (hu : u.stage = t.stage) (key : κ) (body : List (Command θ κ ν ε))
    (ending : Ending ν ε) :
    Effect s.view me
      (if (s.cache.slots.get? key).isNone then some (.begins key s.cache.flights.length) else none)
      (s.request me u s.cache key body ending).view := by
  have hpm : s.view.stage me = .ready := (stage_of_get? ht).trans hp
  have quiet (a : Answer ν ε) : (s.put me (u.answered key a) s.cache).view = s.view :=
    view_put_cache (u := u.answered key a) ht (by simpa using hl) (by simpa using hp.symm) s.cache
  unfold request
  cases hs : s.cache.slots.get? key with
  | none =>
    have hpush : (({ u with frames := ⟨some ⟨key, s.cache.flights.length, ending⟩, body⟩ ::
        u.frames } : Thread θ κ ν ε).log (.load key)).loads =
          ⟨key, s.cache.flights.length, ending⟩ :: s.loads me := by
      rw [loads_of_get? ht, ← hl]
      rfl
    rw [claim_load hs]
    simp only [Option.isNone_none, ↓reduceIte]
    rw [view_put_loads ht (by exact hu), hpush]
    exact .begins ending hpm hs
  | some slot =>
    simp only [Option.isNone_some, Bool.false_eq_true, ↓reduceIte]
    cases slot with
    | ready v =>
      rw [claim_ready hs]
      simp only [quiet]
      exact .nothing
    | loading f =>
      cases hf : s.cache.flights.get? f with
      | none =>
        rw [claim_unknown hs hf]
        simp only [quiet]
        exact .nothing
      | some flight =>
        by_cases ho : flight.owner = me ∨ s.cache.wouldDeadlock flight.owner me = true
        · rw [claim_reentrant hs hf ho]
          cases flight.placeholder <;> simp only [quiet] <;> exact .nothing
        · rw [not_or, Bool.not_eq_true] at ho
          rw [claim_wait hs hf ho.1 ho.2]
          simp only
          rw [view_put_stage ht (by exact hl)]
          exact .waits (p := ⟨key, body, ending, f⟩) hpm hs hf ho.1 ho.2

theorem endLoad_effect {f : Frame θ κ ν ε} {fs : List (Frame θ κ ν ε)}
    (ht : s.threads.get? me = some t) (hp : t.stage = .ready) (hf : t.frames = f :: fs)
    (hc : f.commands = []) : Effect s.view me (s.deed? me) (s.endLoad me t f).view := by
  obtain ⟨frames, stage, events⟩ := t
  obtain ⟨load, commands⟩ := f
  obtain rfl : stage = .ready := hp
  obtain rfl : frames = ⟨load, commands⟩ :: fs := hf
  obtain rfl : commands = [] := hc
  cases load with
  | none =>
    have hd : s.deed? me = none := by simp [deed?, ht]
    change Effect s.view me _ (s.put me ⟨fs, .ready, events⟩ s.cache).view
    rw [hd, view_put_cache ht (by rfl) (by rfl)]
    exact .nothing
  | some l =>
    have hl : s.view.loads me = l :: fs.filterMap Frame.load := loads_of_get? ht
    have hd : s.deed? me = some (.ends l) := by simp [deed?, ht]
    change Effect s.view me _ (s.put me ⟨fs, .telling l, events⟩ (storeEnding s.cache l)).view
    rw [hd, view_put]
    exact .ends (stage_of_get? ht) hl

/-- What one command does to the view. -/
theorem execute_effect {f : Frame θ κ ν ε} {fs : List (Frame θ κ ν ε)} {command : Command θ κ ν ε}
    {rest : List (Command θ κ ν ε)} (ht : s.threads.get? me = some t) (hp : t.stage = .ready)
    (hf : t.frames = f :: fs) (hc : f.commands = command :: rest) :
    Effect s.view me (s.deed? me) (s.execute me t command).view := by
  obtain ⟨frames, stage, events⟩ := t
  obtain ⟨load, commands⟩ := f
  obtain rfl : stage = .ready := hp
  obtain rfl : frames = ⟨load, commands⟩ :: fs := hf
  obtain rfl : commands = command :: rest := hc
  have quiet (u : Thread θ κ ν ε) (hl : u.loads = Thread.loads ⟨⟨load, command :: rest⟩ :: fs,
      .ready, events⟩) (hu : u.stage = .ready) (c : SingleFlight θ κ ν ε) :
      (s.put me u c).view = { s.view with cache := c } := view_put_cache ht hl hu c
  have hd : s.deed? me = command.deed? s.cache := by simp [deed?, ht]
  rw [hd]
  unfold execute
  cases command with
  | get key body ending => exact request_effect ht rfl (Thread.loads_advance _) rfl key body ending
  | publish v =>
    simp only
    split
    · rw [quiet _ (by rfl) (by rfl)]
      exact .publishes _ v
    · rw [quiet _ (by rfl) (by rfl)]
      exact .nothing
  | peek key =>
    simp only
    rw [quiet _ (by rfl) (by rfl)]
    exact .nothing
  | invalidate key =>
    simp only
    rw [quiet _ (by rfl) (by rfl)]
    exact .evicts key
  | clear =>
    simp only
    rw [quiet _ (by rfl) (by rfl)]
    exact .clears
  | keys =>
    simp only
    rw [quiet _ (by rfl) (by rfl)]
    exact .nothing
  | await keys =>
    simp only
    split
    · rw [quiet _ (by rfl) (by rfl)]
      exact .nothing
    · exact .nothing
  | fork a commands =>
    simp only
    split
    · rw [quiet _ (by rfl) (by rfl)]
      exact .nothing
    next h =>
      have ha : (s.put me (Thread.advance ⟨⟨load, .fork a commands :: rest⟩ :: fs, .ready,
          events⟩) s.cache).threads.get? a = none := by
        have hna : s.threads.get? a = none := by simpa [Table.contains] using h
        have hne : me ≠ a := by
          rintro rfl
          simp [ht] at hna
        simpa [put, Table.get?_set, hne] using hna
      have hv := view_fork ha commands
      rw [quiet _ (by rfl) (by rfl)] at hv
      exact hv ▸ .nothing
  | join a =>
    simp only
    split
    · rw [quiet _ (by rfl) (by rfl)]
      exact .nothing
    · exact .nothing

theorem resume_effect {p : Pending θ κ ν ε} (ht : s.threads.get? me = some t)
    (hp : t.stage = .waiting p) : Effect s.view me none (s.resume me t p).view := by
  have hpm : s.view.stage me = .waiting p := (stage_of_get? ht).trans hp
  unfold resume
  cases hf : s.cache.flights.get? p.flight with
  | none => exact .nothing
  | some flight =>
    simp only
    split
    · exact .nothing
    next h =>
      rw [view_put_stage ht (Thread.loads_answered _ _ _)]
      exact .wakes hpm hf (by simp [h])
    next h =>
      rw [view_put_stage ht (Thread.loads_askAgain _ _)]
      exact .wakes hpm hf (by simp [h])

/-- All that a step can do. -/
theorem step_effect (s : System θ κ ν ε) (me : θ) :
    Effect s.view me (s.deed? me) (s.step me).view := by
  cases ht : s.threads.get? me with
  | none =>
    have hd : s.deed? me = none := by simp [deed?, ht]
    rw [hd, step, ht]
    exact .nothing
  | some t =>
    rw [step, ht]
    cases hp : t.stage with
    | waiting p =>
      have hd : s.deed? me = none := by
        obtain ⟨frames, stage, events⟩ := t
        obtain rfl : stage = .waiting p := hp
        simp [deed?, ht]
      simp only [hd, hp]
      exact resume_effect ht hp
    | telling l =>
      have hd : s.deed? me = none := by
        obtain ⟨frames, stage, events⟩ := t
        obtain rfl : stage = .telling l := hp
        simp [deed?, ht]
      simp only [hd, hp, tell]
      rw [view_put_stage ht (Thread.loads_answered _ _ _)]
      exact .tells ((stage_of_get? ht).trans hp)
    | ready =>
      simp only [hp]
      cases hf : t.frames with
      | nil =>
        have hd : s.deed? me = none := by
          obtain ⟨frames, stage, events⟩ := t
          obtain rfl : frames = [] := hf
          simp [deed?, ht]
        rw [hd]
        exact .nothing
      | cons f fs =>
        cases hc : f.commands with
        | nil =>
          simp only [hc]
          exact endLoad_effect ht hp hf hc
        | cons command rest =>
          simp only [hc]
          exact execute_effect ht hp hf hc

end System

/-- What a thread changes of its own accord leaves its loads their names. -/
theorem Thread.Replans.map_name {t u : Thread θ κ ν ε} (h : t.Replans u) :
    u.loads.map Load.name = t.loads.map Load.name := by
  have key (fs : List (Frame θ κ ν ε)) : (fs.filterMap Frame.load).map Load.name =
      (fs.map fun f => f.load.map Load.name).filterMap id := by
    rw [List.map_filterMap, List.filterMap_map]
    rfl
  rw [loads, loads, key, key, h.2.2]

/-- What a run preserves, from what its moves preserve. -/
theorem Run.preserves [DecidableEq θ] [DecidableEq κ] {P : List (Deed κ ν ε) → View θ κ ν ε → Prop}
    {s₀ s : System θ κ ν ε} {deeds : List (Deed κ ν ε)} (h : Run s₀ deeds s) (h₀ : P [] s₀.view)
    (hstep : ∀ {deeds v me d v'}, P deeds v → Effect v me d v' → P (deeds ++ d.toList) v')
    (hplan : ∀ {deeds v} {me : θ} {ls}, P deeds v → ls.map Load.name = (v.loads me).map Load.name →
      P deeds { v with loads := Function.update v.loads me ls }) : P deeds s.view := by
  induction h with
  | refl => exact h₀
  | step _ me ih => exact hstep ih (System.step_effect _ me)
  | fork _ commands ha ih => rwa [System.view_fork ha]
  | replan _ ht hu ih =>
    rw [System.view_put_loads ht hu.1]
    exact hplan ih (by simpa [System.view, System.loads_of_get? ht] using hu.map_name)

end Cascade.SingleFlight
