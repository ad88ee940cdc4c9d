import Cascade.Proofs.SingleFlight.History
import Mathlib.Data.List.Perm.Subperm
/-!
Threads that wait for each other. The cache looks for a circle of waiting threads before it lets a
thread wait, but it only sees those who wait for a load that is still in the slot of its key. So no
circle ever closes among those, and a deadlock needs a thread whose load has been evicted while it
waits.
-/
namespace Cascade.SingleFlight

open Relation

section Graph

variable {α : Type} {r q : α → α → Prop}

/-- An edge from `m` to `o` closes no circle when no path leads from `o` to `m`. -/
theorem transGen_insert {m o a b : α} (hr : ∀ a b, q a b → r a b ∨ a = m ∧ b = o)
    (h : TransGen q a b) : TransGen r a b ∨ ReflTransGen r a m ∧ ReflTransGen r o b := by
  induction h with
  | single hab =>
    rcases hr _ _ hab with h | ⟨rfl, rfl⟩
    · exact .inl (.single h)
    · exact .inr ⟨.refl, .refl⟩
  | tail _ hbc ih =>
    rcases hr _ _ hbc with h | ⟨rfl, rfl⟩
    · rcases ih with ih | ⟨ham, hob⟩
      · exact .inl (ih.tail h)
      · exact .inr ⟨ham, hob.tail h⟩
    · rcases ih with ih | ⟨ham, -⟩
      · exact .inr ⟨ih.to_reflTransGen, .refl⟩
      · exact .inr ⟨ham, .refl⟩

theorem acyclic_insert {m o : α} (hac : ∀ a, ¬ TransGen r a a) (ho : ¬ ReflTransGen r o m)
    (hr : ∀ a b, q a b → r a b ∨ a = m ∧ b = o) (a : α) : ¬ TransGen q a a := by
  intro h
  rcases transGen_insert hr h with h | ⟨ham, hoa⟩
  · exact hac a h
  · exact ho (hoa.trans ham)

/-- From every edge of a circle there is a way back. -/
theorem transGen_with_return {a b : α} (h : TransGen r a b) (hba : ReflTransGen r b a) :
    TransGen (fun x y => r x y ∧ ReflTransGen r y x) a b := by
  induction h with
  | single hab => exact .single ⟨hab, hba⟩
  | tail hab hbc ih => exact (ih (hba.head hbc)).tail ⟨hbc, hba.trans hab.to_reflTransGen⟩

end Graph

variable {θ κ ν ε : Type}

namespace View

variable [DecidableEq θ]

/-- The thread `a` is blocked on a flight that `b` owns. -/
def WaitsFor (v : View θ κ ν ε) (a b : θ) : Prop :=
  ∃ p flight, v.stage a = .waiting p ∧ v.cache.flights.get? p.flight = some flight ∧
    flight.state = .running ∧ flight.owner = b

/-- Some threads wait in a circle, each for a load of the next. -/
def Deadlocked (v : View θ κ ν ε) : Prop := ∃ a, TransGen v.WaitsFor a a

/-- The load that the thread `a` waits for has been evicted since it began. -/
def Stranded (deeds : List (Deed κ ν ε)) (v : View θ κ ν ε) (a : θ) : Prop :=
  ∃ p, v.stage a = .waiting p ∧ ¬ Undisturbed deeds p.key p.flight

/-- The thread `a` waits for a load of `b` that is still in the slot of its key. -/
def Sees [DecidableEq κ] (v : View θ κ ν ε) (a b : θ) : Prop :=
  ∃ p flight, v.stage a = .waiting p ∧ v.cache.slots.get? p.key = some (.loading p.flight) ∧
    v.cache.flights.get? p.flight = some flight ∧ flight.owner = b

end View

section Check

variable [DecidableEq θ] [DecidableEq κ] {v w : View θ κ ν ε} {me : θ} {d : Option (Deed κ ν ε)}

theorem View.Sees.blocker? (hs : Sound v) {a b : θ} (h : v.Sees a b) :
    v.cache.blocker? a = some b := by
  obtain ⟨p, flight, hp, hslot, hf, rfl⟩ := h
  have hw := (hs.noted a p hp).1
  simp [SingleFlight.blocker?, hw, loadOf?_eq_some.mpr hslot, hf]

/-- The threads on a path, as a list without repetition that bounds the steps of the check. -/
theorem exists_path (hs : Sound v) (hac : ∀ a, ¬ TransGen v.Sees a a) {a b : θ}
    (h : TransGen v.Sees a b) :
    ∃ path : List θ, path.Nodup ∧ (∀ x ∈ path, x = a ∨ TransGen v.Sees a x) ∧
      (∀ x ∈ path, ∃ y, v.Sees x y) ∧
      ∀ n, path.length ≤ n → v.cache.blockedOn b n a = true := by
  induction h using TransGen.head_induction_on with
  | @single a hab =>
    refine ⟨[a], List.nodup_singleton a, by simp, by simpa using ⟨b, hab⟩, ?_⟩
    intro n hn
    cases n with
    | zero => simp at hn
    | succ n => simp [blockedOn, hab.blocker? hs]
  | @head a c hac' hcb ih =>
    obtain ⟨path, hnd, hreach, hout, hblock⟩ := ih
    refine ⟨a :: path, List.nodup_cons.mpr ⟨?_, hnd⟩, ?_, ?_, ?_⟩
    · intro ha
      rcases hreach a ha with rfl | hca
      · exact hac a (.single hac')
      · exact hac a (hca.head hac')
    · intro x hx
      rcases List.mem_cons.mp hx with rfl | hx
      · exact .inl rfl
      · rcases hreach x hx with rfl | hcx
        · exact .inr (.single hac')
        · exact .inr (hcx.head hac')
    · intro x hx
      rcases List.mem_cons.mp hx with rfl | hx
      · exact ⟨c, hac'⟩
      · exact hout x hx
    · intro n hn
      cases n with
      | zero => simp at hn
      | succ n => simp [blockedOn, hac'.blocker? hs, hblock n (by simpa using hn)]

/-- The check finds every path of threads that it can see. -/
theorem wouldDeadlock_of_transGen (hs : Sound v) (hac : ∀ a, ¬ TransGen v.Sees a a) {a b : θ}
    (h : TransGen v.Sees a b) : v.cache.wouldDeadlock a b = true := by
  obtain ⟨path, hnd, -, hout, hblock⟩ := exists_path hs hac h
  apply hblock
  have hsub : path ⊆ v.cache.waiting.keys := by
    intro x hx
    obtain ⟨y, p, flight, hp, -⟩ := hout x hx
    exact Table.mem_keys_of_get? _ (hs.noted x p hp).1
  have hle := (List.subperm_of_subset hnd hsub).length_le
  simp only [Table.keys, List.length_map] at hle
  omega

/-- A move other than a wait lets no thread see more. -/
theorem Effect.sees (hs : Sound v) (he : Effect v me d w) {a b : θ} (h : w.Sees a b) :
    v.Sees a b ∨ a = me ∧ v.cache.wouldDeadlock b me = false ∧ b ≠ me := by
  obtain ⟨p, flight, hp, hslot, hf, rfl⟩ := h
  cases he with
  | nothing => exact .inl ⟨p, flight, hp, hslot, hf, rfl⟩
  | publishes f x =>
    simp only [publish, slots_updateFlight, get?_updateFlight] at hslot hf
    split at hf
    · obtain ⟨old, hold, rfl⟩ := Option.map_eq_some_iff.mp hf
      exact .inl ⟨p, old, hp, hslot, hold, rfl⟩
    · exact .inl ⟨p, flight, hp, hslot, hf, rfl⟩
  | evicts key =>
    simp only [invalidate, Table.get?_erase] at hslot
    split at hslot
    · exact absurd hslot (by simp)
    · exact .inl ⟨p, flight, hp, hslot, hf, rfl⟩
  | clears => exact absurd hslot (by simp [clear])
  | begins ending hr hn =>
    have hlt := (hs.noted a p hp).2
    have hne : v.cache.flights.length ≠ p.flight := by omega
    simp only [Table.get?_set, hne, ↓reduceIte] at hslot hf
    split at hslot
    · exact absurd hslot (by simp [hne])
    · exact .inl ⟨p, flight, hp, hslot, hf, rfl⟩
  | @waits q owned hr hn hown ho hd =>
    by_cases ha : a = me
    · subst ha
      obtain rfl : q = p := by simpa using hp
      obtain rfl : owned = flight := by simpa [hown] using hf
      exact .inr ⟨rfl, hd, ho⟩
    · exact .inl ⟨p, flight, by simpa [ha] using hp, hslot, hf, rfl⟩
  | @ends l rest hr hl =>
    have ha : a ≠ me := by
      rintro rfl
      simp at hp
    simp only [slots_storeEnding, flights_storeEnding] at hslot hf
    split at hslot
    · exact absurd hslot (l.ending.slot?_ne_loading _)
    · exact .inl ⟨p, flight, by simpa [ha] using hp, hslot, hf, rfl⟩
  | @tells l hl =>
    have ha : a ≠ me := by
      rintro rfl
      simp at hp
    simp only [finishEnding_eq, slots_updateFlight, get?_updateFlight] at hslot hf
    have hp : v.stage a = .waiting p := by simpa [ha] using hp
    split at hf
    · obtain ⟨old, hold, rfl⟩ := Option.map_eq_some_iff.mp hf
      exact .inl ⟨p, old, hp, hslot, hold, rfl⟩
    · exact .inl ⟨p, flight, hp, hslot, hf, rfl⟩
  | wakes hr hd hrun =>
    have ha : a ≠ me := by
      rintro rfl
      simp at hp
    exact .inl ⟨p, flight, by simpa [ha] using hp, hslot, hf, rfl⟩

/-- No step closes a circle that the check could have seen. -/
theorem Effect.acyclic (hs : Sound v) (hac : ∀ a, ¬ TransGen v.Sees a a) (he : Effect v me d w)
    (a : θ) : ¬ TransGen w.Sees a a := by
  by_cases hnew : ∃ b, w.Sees me b ∧ v.cache.wouldDeadlock b me = false ∧ b ≠ me
  · obtain ⟨b, hb, hd, hne⟩ := hnew
    refine acyclic_insert (m := me) (o := b) hac ?_ ?_ a
    · intro hbm
      rcases reflTransGen_iff_eq_or_transGen.mp hbm with rfl | hbm
      · exact hne rfl
      · rw [wouldDeadlock_of_transGen hs hac hbm] at hd
        exact absurd hd (by simp)
    · intro x y hxy
      rcases he.sees hs hxy with h | ⟨rfl, -, -⟩
      · exact .inl h
      · obtain ⟨p, flight, hp, -, hf, rfl⟩ := hxy
        obtain ⟨q, other, hq, -, hg, rfl⟩ := hb
        obtain rfl : p = q := by simpa [hp] using hq
        obtain rfl : flight = other := by simpa [hf] using hg
        exact .inr ⟨rfl, rfl⟩
  · intro h
    refine hac a (TransGen.mono ?_ a a h)
    intro x y hxy
    rcases he.sees hs hxy with h | ⟨rfl, h⟩
    · exact h
    · exact absurd ⟨y, hxy, h⟩ hnew

theorem Run.acyclic {s : System θ κ ν ε} {deeds : List (Deed κ ν ε)} (h : Run .start deeds s) :
    ∀ a, ¬ TransGen s.view.Sees a a := by
  have hP : Sound s.view ∧ ∀ a, ¬ TransGen s.view.Sees a a := by
    refine h.preserves (P := fun _ v => Sound v ∧ ∀ a, ¬ TransGen v.Sees a a) ⟨.start, ?_⟩ ?_ ?_
    · intro a ha
      obtain ⟨b, ⟨p, flight, hp, -⟩, -⟩ := TransGen.head'_iff.mp ha
      simp [System.view, System.start, System.stage] at hp
    · intro deeds v me d w hv he
      exact ⟨hv.1.effect he, he.acyclic hv.1 hv.2⟩
    · intro deeds v me ls hv hn
      exact ⟨hv.1.replans hn, hv.2⟩
  exact hP.2

/-- A thread on a circle of waiting threads sees the next one, unless its load has been evicted. -/
theorem Accounted.sees {deeds : List (Deed κ ν ε)} (hv : Accounted deeds v) {a b : θ}
    (h : v.WaitsFor a b) (hb : ∃ c, v.WaitsFor b c) (hs : ¬ v.Stranded deeds a) : v.Sees a b := by
  obtain ⟨p, flight, hp, hf, hrun, rfl⟩ := h
  obtain ⟨c, q, -, hq, -⟩ := hb
  have hu : Undisturbed deeds p.key p.flight := by
    by_contra hu
    exact hs ⟨p, hp, hu⟩
  obtain ⟨l, hl, hlf⟩ := hv.sound.manned p.flight flight hf hrun
  have hl : l ∈ v.loads flight.owner := by simpa [View.hand, hq, Stage.untold] using hl
  have hbegun := (hv.logged.live _ l hl).1
  rw [hlf] at hbegun
  have hkey := hv.logged.begun_inj _ _ _ hbegun (hv.logged.awaited a p hp)
  have hslot := hv.rooted.live _ l hl
  rw [hkey, hlf] at hslot
  exact ⟨p, flight, hp, hslot.mpr hu, hf, rfl⟩

/-- No step frees a thread that waits for a load of a waiting thread. -/
theorem Effect.waitsFor (hs : Sound v) (he : Effect v me d w) {a b : θ} (h : v.WaitsFor a b)
    (hb : ∃ c, v.WaitsFor b c) : w.WaitsFor a b := by
  obtain ⟨p, flight, hp, hf, hrun, rfl⟩ := h
  obtain ⟨c, q, -, hq, -⟩ := hb
  cases he with
  | nothing => exact ⟨p, flight, hp, hf, hrun, rfl⟩
  | publishes f x =>
    by_cases hfl : f = p.flight
    · exact ⟨p, { flight with placeholder := some x }, hp,
        by simp [publish, get?_updateFlight, hfl, hf], hrun, rfl⟩
    · exact ⟨p, flight, hp, by simp [publish, get?_updateFlight, hfl, hf], hrun, rfl⟩
  | evicts key => exact ⟨p, flight, hp, hf, hrun, rfl⟩
  | clears => exact ⟨p, flight, hp, hf, hrun, rfl⟩
  | begins ending hr hn =>
    have hlt := (hs.noted a p hp).2
    have hne : v.cache.flights.length ≠ p.flight := by omega
    exact ⟨p, flight, hp, by simpa [Table.get?_set, hne] using hf, hrun, rfl⟩
  | waits hr hn hown ho hd =>
    have ha : a ≠ me := by
      rintro rfl
      simp [hr] at hp
    exact ⟨p, flight, by simpa [ha] using hp, hf, hrun, rfl⟩
  | ends hr hl =>
    have ha : a ≠ me := by
      rintro rfl
      simp [hr] at hp
    exact ⟨p, flight, by simpa [ha] using hp, by simpa using hf, hrun, rfl⟩
  | @tells l hl =>
    have ha : a ≠ me := by
      rintro rfl
      simp [hl] at hp
    have hne : l.flight ≠ p.flight := by
      intro e
      obtain ⟨other, hg, ho, -⟩ := hs.owned me l (by simp [View.hand, hl, Stage.untold])
      obtain rfl : flight = other := by simpa [e, hf] using hg
      rw [ho, hl] at hq
      simp at hq
    exact ⟨p, flight, by simpa [ha] using hp,
      by simpa [finishEnding_eq, get?_updateFlight, hne] using hf, hrun, rfl⟩
  | @wakes q other hr hg hend =>
    have ha : a ≠ me := by
      rintro rfl
      obtain rfl : p = q := by simpa [hp] using hr
      obtain rfl : flight = other := by simpa [hf] using hg
      exact hend hrun
    exact ⟨p, flight, by simpa [ha] using hp, hf, hrun, rfl⟩

theorem Effect.deadlocked (hs : Sound v) (he : Effect v me d w) (h : v.Deadlocked) :
    w.Deadlocked := by
  obtain ⟨a, ha⟩ := h
  refine ⟨a, TransGen.mono ?_ a a (transGen_with_return ha .refl)⟩
  rintro x y ⟨hxy, hyx⟩
  obtain ⟨z, hyz, -⟩ := TransGen.head'_iff.mp (TransGen.tail' hyx hxy)
  exact he.waitsFor hs hxy ⟨z, hyz⟩

end Check

section Run

variable [DecidableEq θ] [DecidableEq κ] {s : System θ κ ν ε} {deeds : List (Deed κ ν ε)}

theorem Run.exists_stranded (h : Run .start deeds s) (hd : s.view.Deadlocked) :
    ∃ a, s.view.Stranded deeds a ∧ TransGen s.view.WaitsFor a a := by
  obtain ⟨a, ha⟩ := hd
  by_contra hnone
  refine h.acyclic a (TransGen.mono ?_ a a (transGen_with_return ha .refl))
  rintro x y ⟨hxy, hyx⟩
  have hy : ∃ z, s.view.WaitsFor y z := by
    obtain ⟨z, hyz, -⟩ := TransGen.head'_iff.mp (TransGen.tail' hyx hxy)
    exact ⟨z, hyz⟩
  exact h.accounted.sees hxy hy fun hx => hnone ⟨x, hx, .head' hxy hyx⟩

/-- In whatever order threads take their steps, those that wait in a circle do so through a load
that was evicted after it began, and through nothing else. -/
theorem Run.deadlocked_iff (h : Run .start deeds s) :
    s.view.Deadlocked ↔ ∃ a, s.view.Stranded deeds a ∧ TransGen s.view.WaitsFor a a := by
  constructor
  · exact h.exists_stranded
  · rintro ⟨a, -, ha⟩
    exact ⟨a, ha⟩

/-- Where nothing is evicted there is no deadlock. -/
theorem Run.not_deadlocked (h : Run .start deeds s) (hd : ∀ d ∈ deeds, ∀ key, ¬ d.Empties key) :
    ¬ s.view.Deadlocked := by
  intro hdead
  obtain ⟨a, ⟨p, hp, hu⟩, -⟩ := h.exists_stranded hdead
  obtain ⟨d₁, d₂, he⟩ := List.append_of_mem (h.accounted.logged.awaited a p hp)
  refine hu ⟨d₁, d₂, he, ?_⟩
  intro d hm
  exact hd d (by simp [he, hm]) p.key

/-- A deadlock is for ever, whatever is done by other threads. -/
theorem Run.deadlocked_of_deadlocked {later : List (Deed κ ν ε)} {s' : System θ κ ν ε}
    (h : Run .start deeds s) (hd : s.view.Deadlocked) (hl : Run s later s') :
    s'.view.Deadlocked := by
  have hP : Sound s'.view ∧ s'.view.Deadlocked := by
    refine hl.preserves (P := fun _ v => Sound v ∧ v.Deadlocked) ⟨h.accounted.sound, hd⟩ ?_ ?_
    · intro deeds v me d w hv he
      exact ⟨hv.1.effect he, he.deadlocked hv.1 hv.2⟩
    · intro deeds v me ls hv hn
      exact ⟨hv.1.replans hn, hv.2⟩
  exact hP.2

end Run

/-- Thread 0 evicts the key that it loads and then asks for the key that thread 1 loads, whose
loader asks for the evicted one. -/
def crossing : System Nat Nat Nat Nat :=
  let evicting := .start [.get 0 [.invalidate 0, .get 1 [] (.value 1)] (.value 0)]
  let other := .start [.get 1 [.get 0 [] (.value 0)] (.value 1)]
  (System.start.put 0 evicting .empty).put 1 other .empty

theorem crossing_run : Run .start [] crossing :=
  (Run.refl.fork (a := 0) _ rfl).fork _ rfl

/-- Thread 1 waits before the eviction and thread 0 after it, each for a load of the other. -/
theorem crossing_deadlocked : ([0, 1, 1, 0, 0].foldl System.step crossing).view.Deadlocked := by
  refine ⟨0, .head (b := 1) ?_ (.single ?_)⟩
  · exact ⟨_, _, rfl, rfl, rfl, rfl⟩
  · exact ⟨_, _, rfl, rfl, rfl, rfl⟩

theorem crossing_stranded : ∃ deeds a,
    ([0, 1, 1, 0, 0].foldl System.step crossing).view.Stranded deeds a ∧
      TransGen ([0, 1, 1, 0, 0].foldl System.step crossing).view.WaitsFor a a := by
  obtain ⟨deeds, hrun⟩ := crossing_run.turns [0, 1, 1, 0, 0]
  exact ⟨deeds, (Run.deadlocked_iff hrun).mp crossing_deadlocked⟩

/-- So not every run is free of deadlock. -/
theorem not_deadlock_free :
    ¬ ∀ (deeds : List (Deed Nat Nat Nat)) (s : System Nat Nat Nat Nat),
      Run .start deeds s → ¬ s.view.Deadlocked := by
  intro h
  obtain ⟨deeds, hrun⟩ := crossing_run.turns [0, 1, 1, 0, 0]
  exact h deeds _ hrun crossing_deadlocked

end Cascade.SingleFlight
