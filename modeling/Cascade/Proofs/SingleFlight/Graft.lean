import Cascade.SingleFlight.Basic
import Mathlib.Tactic.Common
/-!
A cache with a past. Clearing a cache leaves the flights of all earlier loads behind, so the loads that
follow get higher numbers than they would get in an empty cache. A graft gives a cache such a past and
moves its numbers out of the way; every step then does what it does without the past.
-/
namespace Cascade

namespace Table

variable {κ α β : Type} [DecidableEq κ]

theorem mapValues_set (f : α → β) (t : Table κ α) (key : κ) (v : α) :
    mapValues f (set t key v) = set (mapValues f t) key (f v) := by
  induction t with
  | nil => rfl
  | cons e t ih =>
    obtain ⟨k, w⟩ := e
    change mapValues f (set ((k, w) :: t) key v) = set ((k, f w) :: mapValues f t) key (f v)
    by_cases h : k = key
    · rw [set, if_pos h, set, if_pos h]
      rfl
    · rw [set, if_neg h, set, if_neg h, ← ih]
      rfl

theorem mapValues_erase (f : α → β) (t : Table κ α) (key : κ) :
    mapValues f (erase t key) = erase (mapValues f t) key := by
  induction t with
  | nil => rfl
  | cons e t ih =>
    obtain ⟨k, w⟩ := e
    change mapValues f (erase ((k, w) :: t) key) = erase ((k, f w) :: mapValues f t) key
    by_cases h : k = key
    · rw [erase, if_pos h, erase, if_pos h, ih]
    · rw [erase, if_neg h, erase, if_neg h, ← ih]
      rfl

theorem set_append_of_none {t : Table κ α} {key : κ} (h : get? t key = none) (u : Table κ α)
    (v : α) : set (t ++ u) key v = t ++ set u key v := by
  induction t with
  | nil => rfl
  | cons e t ih =>
    obtain ⟨k, w⟩ := e
    by_cases hk : k = key
    · simp [hk] at h
    · rw [get?_cons, if_neg hk] at h
      rw [List.cons_append, set, if_neg hk, ih h, List.cons_append]

/-- A table of numbers that are counted from one further on. -/
def moveKeys (n : Nat) (t : Table Nat α) : Table Nat α := t.map fun e => (n + e.1, e.2)

theorem get?_moveKeys (n : Nat) (t : Table Nat α) (k : Nat) :
    get? (moveKeys n t) (n + k) = get? t k := by
  induction t with
  | nil => rfl
  | cons e t ih =>
    obtain ⟨k', v⟩ := e
    change get? ((n + k', v) :: moveKeys n t) (n + k) = _
    by_cases h : k' = k <;> simp [h, ih]

theorem set_moveKeys (n : Nat) (t : Table Nat α) (k : Nat) (v : α) :
    set (moveKeys n t) (n + k) v = moveKeys n (set t k v) := by
  induction t with
  | nil => rfl
  | cons e t ih =>
    obtain ⟨k', w⟩ := e
    change set ((n + k', w) :: moveKeys n t) (n + k) v = moveKeys n (set ((k', w) :: t) k v)
    by_cases h : k' = k
    · rw [set, if_pos (by omega), set, if_pos h]
      rfl
    · rw [set, if_neg (by omega), set, if_neg h, ih]
      rfl

/-- A table whose keys are counted as they come. -/
def Counted (t : Table Nat α) : Prop := ∀ k, (get? t k).isSome → k < t.length

namespace Counted

variable {t : Table Nat α}

theorem nil : Counted ([] : Table Nat α) := fun _ h => absurd h (by simp)

theorem get?_add (h : t.Counted) (k : Nat) : get? t (t.length + k) = none := by
  by_contra hne
  have := h _ (Option.isSome_iff_ne_none.mpr hne)
  omega

/-- Counting goes on where it has come to. -/
theorem set_length (h : t.Counted) (v : α) : (set t t.length v).Counted := by
  intro k hk
  have hnone : get? t t.length = none := h.get?_add 0
  rw [length_set, hnone]
  rw [get?_set] at hk
  simp only [Option.isSome_none, Bool.false_eq_true, if_false]
  split at hk
  next he => omega
  next => exact Nat.lt_succ_of_lt (h k hk)

theorem set_of_isSome (h : t.Counted) {k : Nat} (hk : (get? t k).isSome) (v : α) :
    (set t k v).Counted := by
  intro k' hk'
  rw [length_set, if_pos hk]
  rw [get?_set] at hk'
  split at hk'
  next he => exact he ▸ h k hk
  next => exact h k' hk'

/-- Behind a counted table another one goes on with numbers of its own. -/
theorem get?_append_moveKeys (h : t.Counted) (u : Table Nat α) (k : Nat) :
    get? (t ++ moveKeys t.length u) (t.length + k) = get? u k := by
  rw [get?_append, h.get?_add k, Option.none_or, get?_moveKeys]

theorem set_append_moveKeys (h : t.Counted) (u : Table Nat α) (k : Nat) (v : α) :
    set (t ++ moveKeys t.length u) (t.length + k) v = t ++ moveKeys t.length (set u k v) := by
  rw [set_append_of_none (h.get?_add k), set_moveKeys]

end Counted

end Table

/-- The slot with its flight counted from one further on. -/
def Slot.move {ν : Type} (n : Nat) : Slot ν → Slot ν
  | loading f => loading (n + f)
  | ready v => ready v

def Claim.move {ν : Type} (n : Nat) : Claim ν → Claim ν
  | hit v => hit v
  | reentrant placeholder => reentrant placeholder
  | wait f => wait (n + f)
  | load f => load (n + f)

namespace SingleFlight

variable {κ ν ε : Type} [DecidableEq κ]

/-- The flights that a cache of one thread has had. -/
abbrev Past (ν ε : Type) := Table Nat (Flight Unit ν ε)

/-- A cache of one thread, as steps leave it: flights are counted, and the thread never waits. -/
structure Regular (c : SingleFlight Unit κ ν ε) : Prop where
  counted : c.flights.Counted
  waiting : c.waiting = []

/-- The cache as it would be had there been other flights before its own. -/
def graft (past : Past ν ε) (c : SingleFlight Unit κ ν ε) : SingleFlight Unit κ ν ε where
  slots := c.slots.mapValues (Slot.move past.length)
  waiting := c.waiting
  flights := past ++ Table.moveKeys past.length c.flights

namespace Regular

variable {c : SingleFlight Unit κ ν ε}

omit [DecidableEq κ] in
theorem empty : (SingleFlight.empty : SingleFlight Unit κ ν ε).Regular := ⟨.nil, rfl⟩

theorem claim (h : c.Regular) (key : κ) : (c.claim () key).2.Regular := by
  cases hs : c.slots.get? key with
  | none =>
    rw [claim_load hs]
    exact ⟨h.counted.set_length _, h.waiting⟩
  | some s =>
    cases s with
    | ready v => rwa [claim_ready hs]
    | loading f =>
      cases hf : c.flights.get? f with
      | none => rwa [claim_unknown hs hf]
      | some flight => rwa [claim_reentrant hs hf (.inl rfl)]

omit [DecidableEq κ] in
theorem updateFlight (h : c.Regular) (f : Nat) (change : Flight Unit ν ε → Flight Unit ν ε) :
    (c.updateFlight f change).Regular := by
  refine ⟨?_, (waiting_updateFlight c f change).trans h.waiting⟩
  unfold SingleFlight.updateFlight
  cases hf : c.flights.get? f with
  | none => exact h.counted
  | some flight => exact h.counted.set_of_isSome (by rw [hf]; rfl) _

theorem store (h : c.Regular) (key : κ) (f : Nat) (result : Except ε ν) :
    (c.store key f result).Regular := by
  unfold SingleFlight.store
  split
  · cases result <;> exact ⟨h.counted, h.waiting⟩
  · exact h

theorem settle (h : c.Regular) (key : κ) (f : Nat) (result : Except ε ν) :
    (c.settle key f result).Regular :=
  (h.store key f result).updateFlight f _

theorem detach (h : c.Regular) (key : κ) (f : Nat) : (c.detach key f).Regular := by
  unfold SingleFlight.detach
  split
  · exact ⟨h.counted, h.waiting⟩
  · exact h

theorem invalidate (h : c.Regular) (key : κ) : (c.invalidate key).Regular :=
  ⟨h.counted, h.waiting⟩

omit [DecidableEq κ] in
theorem clear (h : c.Regular) : c.clear.Regular := ⟨h.counted, h.waiting⟩

end Regular

section Graft

variable {past : Past ν ε} (c : SingleFlight Unit κ ν ε)

omit [DecidableEq κ] in
/-- An empty past is none. -/
@[simp] theorem graft_nil : graft [] c = c := by
  have hslot : ∀ s : Slot ν, Slot.move 0 s = s := by
    intro s
    cases s <;> simp [Slot.move]
  cases c
  simp [graft, Table.mapValues, Table.moveKeys, hslot]

omit [DecidableEq κ] in
/-- Once it is cleared, a cache is an empty one with a past. -/
theorem Regular.clear_eq {c : SingleFlight Unit κ ν ε} (h : c.Regular) :
    c.clear = graft c.flights SingleFlight.empty := by
  simp [SingleFlight.clear, graft, SingleFlight.empty, Table.mapValues, Table.moveKeys, h.waiting]

theorem slots_graft (key : κ) :
    (graft past c).slots.get? key = (c.slots.get? key).map (Slot.move past.length) :=
  Table.get?_mapValues ..

theorem get?_graft (key : κ) : (graft past c).get? key = c.get? key := by
  unfold SingleFlight.get?
  rw [slots_graft]
  rcases c.slots.get? key with _ | _ | _ <;> rfl

omit [DecidableEq κ] in
theorem keys_graft : (graft past c).keys = c.keys := by
  unfold keys graft Table.mapValues
  rw [List.filterMap_map]
  congr 1
  funext e
  obtain ⟨k, _ | _⟩ := e <;> rfl

theorem invalidate_graft (key : κ) : (graft past c).invalidate key = graft past (c.invalidate key) := by
  have hslots : (c.slots.mapValues (Slot.move past.length)).erase key =
      (c.slots.erase key).mapValues (Slot.move past.length) := (Table.mapValues_erase ..).symm
  rw [invalidate, graft, hslots]
  rfl

/-- The slot of a key has a flight, counted with the past, if it has it without the past. -/
theorem loadOf?_graft (key : κ) (f : Nat) :
    (graft past c).loadOf? key = some (past.length + f) ↔ c.loadOf? key = some f := by
  unfold loadOf?
  rw [slots_graft]
  rcases c.slots.get? key with _ | _ | _ <;> simp [Slot.move]

theorem detach_graft (key : κ) (f : Nat) :
    (graft past c).detach key (past.length + f) = graft past (c.detach key f) := by
  unfold detach
  simp only [loadOf?_graft]
  split
  · exact invalidate_graft c key
  · rfl

theorem store_graft (key : κ) (f : Nat) (result : Except ε ν) :
    (graft past c).store key (past.length + f) result = graft past (c.store key f result) := by
  unfold store
  simp only [loadOf?_graft]
  split
  · cases result with
    | error e => exact invalidate_graft c key
    | ok v =>
      have hslots : (c.slots.mapValues (Slot.move past.length)).set key (.ready v) =
          (c.slots.set key (.ready v)).mapValues (Slot.move past.length) :=
        (Table.mapValues_set _ _ key (Slot.ready v)).symm
      exact congrArg (fun slots => { graft past c with slots := slots }) hslots
  · rfl

variable (hp : past.Counted)
include hp

omit [DecidableEq κ] in
theorem updateFlight_graft (f : Nat) (change : Flight Unit ν ε → Flight Unit ν ε) :
    (graft past c).updateFlight (past.length + f) change = graft past (c.updateFlight f change) := by
  have hget : (graft past c).flights.get? (past.length + f) = c.flights.get? f :=
    hp.get?_append_moveKeys c.flights f
  unfold updateFlight
  rw [hget]
  cases c.flights.get? f with
  | none => rfl
  | some flight =>
    have hset : (past ++ Table.moveKeys past.length c.flights).set (past.length + f) (change flight) =
        past ++ Table.moveKeys past.length (c.flights.set f (change flight)) :=
      hp.set_append_moveKeys c.flights f (change flight)
    exact congrArg (fun flights => { graft past c with flights := flights }) hset

theorem settle_graft (key : κ) (f : Nat) (result : Except ε ν) :
    (graft past c).settle key (past.length + f) result = graft past (c.settle key f result) := by
  rw [settle, store_graft, finish, updateFlight_graft _ hp]
  rfl

theorem claim_graft (key : κ) : (graft past c).claim () key =
    ((c.claim () key).1.move past.length, graft past (c.claim () key).2) := by
  have hslot : (graft past c).slots.get? key = (c.slots.get? key).map (Slot.move past.length) :=
    slots_graft c key
  cases hs : c.slots.get? key with
  | none =>
    -- A new flight is numbered by how many there are, and those of the past count.
    have hlength : (graft past c).flights.length = past.length + c.flights.length := by
      simp [graft, Table.moveKeys]
    have hslots : (c.slots.mapValues (Slot.move past.length)).set key
          (.loading (past.length + c.flights.length)) =
        (c.slots.set key (.loading c.flights.length)).mapValues (Slot.move past.length) :=
      (Table.mapValues_set _ _ key (Slot.loading c.flights.length)).symm
    have hflights : (past ++ Table.moveKeys past.length c.flights).set
          (past.length + c.flights.length) ⟨(), none, .running⟩ =
        past ++ Table.moveKeys past.length (c.flights.set c.flights.length ⟨(), none, .running⟩) :=
      hp.set_append_moveKeys c.flights _ _
    rw [hs] at hslot
    rw [claim_load hs, claim_load hslot, hlength]
    refine Prod.ext rfl ?_
    exact congrArg₂ (fun slots flights => { graft past c with slots := slots, flights := flights })
      hslots hflights
  | some s =>
    rw [hs] at hslot
    cases s with
    | ready v =>
      rw [claim_ready hs, claim_ready hslot]
      rfl
    | loading f =>
      have hget : (graft past c).flights.get? (past.length + f) = c.flights.get? f :=
        hp.get?_append_moveKeys c.flights f
      cases hf : c.flights.get? f with
      | none =>
        rw [claim_unknown hs hf, claim_unknown hslot (hget.trans hf)]
        rfl
      | some flight =>
        rw [claim_reentrant hs hf (.inl rfl), claim_reentrant hslot (hget.trans hf) (.inl rfl)]
        rfl

end Graft

end SingleFlight
end Cascade
