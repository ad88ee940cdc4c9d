import Cascade.Table
/-!
A cache that loads each key once. While one thread loads a key, the flight of that load is in the
key's slot: other threads wait for it and share its result, and the thread that owns it, when it asks
again, gets the placeholder its loader published or an error. A thread whose wait would close a circle
of waiting threads is treated like the owner. Failures are not kept, and evicting a key that is being
loaded detaches the load, so that its result reaches those who wait but not the cache.

Each function here is one step made under the lock of the cache. Flights are named by the order in
which they began.
-/
namespace Cascade

inductive FlightState (ν ε : Type)
  | running
  | done (result : Except ε ν)
  /-- The loader ended without a result. -/
  | abandoned

structure Flight (θ ν ε : Type) where
  owner : θ
  placeholder : Option ν
  state : FlightState ν ε

inductive Slot (ν : Type)
  | loading (flight : Nat)
  | ready (v : ν)

/-- Threads are named by `θ`; keys are `κ`, values `ν` and errors `ε`. -/
structure SingleFlight (θ κ ν ε : Type) where
  slots : Table κ (Slot ν)
  /-- The key each waiting thread asked for. -/
  waiting : Table θ κ
  flights : Table Nat (Flight θ ν ε)

/-- What a request for a key comes to. -/
inductive Claim (ν : Type)
  | hit (v : ν)
  /-- The load in flight is the caller's own, or waiting for it would never end. -/
  | reentrant (placeholder : Option ν)
  | wait (flight : Nat)
  | load (flight : Nat)

namespace SingleFlight

variable {θ κ ν ε : Type} [DecidableEq θ] [DecidableEq κ]

def empty : SingleFlight θ κ ν ε := ⟨[], [], []⟩

instance : Inhabited (SingleFlight θ κ ν ε) := ⟨empty⟩

/-- The flight that is in the slot of a key. -/
def loadOf? (c : SingleFlight θ κ ν ε) (key : κ) : Option Nat :=
  match c.slots.get? key with
  | some (.loading f) => some f
  | _ => none

/-- The owner of the load that a waiting thread waits for. -/
def blocker? (c : SingleFlight θ κ ν ε) (thread : θ) : Option θ := do
  let key ← c.waiting.get? thread
  let f ← c.loadOf? key
  return (← c.flights.get? f).owner

/-- Whether `owner` waits for `me`, directly or through at most `steps` further threads. -/
def blockedOn (c : SingleFlight θ κ ν ε) (me : θ) : (steps : Nat) → (owner : θ) → Bool
  | 0, _ => false
  | steps + 1, owner =>
    match c.blocker? owner with
    | none => false
    | some next => next = me || blockedOn c me steps next

/-- Each thread waits for one key at most, so no chain is longer than the number of waiting
threads. -/
def wouldDeadlock (c : SingleFlight θ κ ν ε) (owner me : θ) : Bool :=
  c.blockedOn me (c.waiting.length + 1) owner

def claim (c : SingleFlight θ κ ν ε) (me : θ) (key : κ) : Claim ν × SingleFlight θ κ ν ε :=
  match c.slots.get? key with
  | some (.ready v) => (.hit v, c)
  | some (.loading f) =>
    match c.flights.get? f with
    | none => (.reentrant none, c)
    | some flight =>
      if flight.owner = me || c.wouldDeadlock flight.owner me then
        (.reentrant flight.placeholder, c)
      else (.wait f, { c with waiting := c.waiting.set me key })
  | none =>
    let f := c.flights.length
    (.load f, { c with
      slots := c.slots.set key (.loading f)
      flights := c.flights.set f ⟨me, none, .running⟩ })

theorem claim_ready {c : SingleFlight θ κ ν ε} {key : κ} {v : ν}
    (h : c.slots.get? key = some (.ready v)) (me : θ) : c.claim me key = (.hit v, c) := by
  simp [claim, h]

theorem claim_reentrant {c : SingleFlight θ κ ν ε} {key : κ} {f : Nat} {flight : Flight θ ν ε}
    {me : θ} (h : c.slots.get? key = some (.loading f)) (hf : c.flights.get? f = some flight)
    (ho : flight.owner = me ∨ c.wouldDeadlock flight.owner me = true) :
    c.claim me key = (.reentrant flight.placeholder, c) := by
  simp [claim, h, hf, ho]

theorem claim_wait {c : SingleFlight θ κ ν ε} {key : κ} {f : Nat} {flight : Flight θ ν ε} {me : θ}
    (h : c.slots.get? key = some (.loading f)) (hf : c.flights.get? f = some flight)
    (ho : flight.owner ≠ me) (hd : c.wouldDeadlock flight.owner me = false) :
    c.claim me key = (.wait f, { c with waiting := c.waiting.set me key }) := by
  simp [claim, h, hf, ho, hd]

/-- A load whose flight is not known is taken for the caller's own. -/
theorem claim_unknown {c : SingleFlight θ κ ν ε} {key : κ} {f : Nat}
    (h : c.slots.get? key = some (.loading f)) (hf : c.flights.get? f = none) (me : θ) :
    c.claim me key = (.reentrant none, c) := by
  simp [claim, h, hf]

theorem claim_load {c : SingleFlight θ κ ν ε} {key : κ} (h : c.slots.get? key = none) (me : θ) :
    c.claim me key = (.load c.flights.length, { c with
      slots := c.slots.set key (.loading c.flights.length)
      flights := c.flights.set c.flights.length ⟨me, none, .running⟩ }) := by
  simp [claim, h]

omit [DecidableEq θ] in
theorem loadOf?_eq_some {c : SingleFlight θ κ ν ε} {key : κ} {f : Nat} :
    c.loadOf? key = some f ↔ c.slots.get? key = some (.loading f) := by
  unfold loadOf?
  split <;> simp_all

def updateFlight (c : SingleFlight θ κ ν ε) (f : Nat) (change : Flight θ ν ε → Flight θ ν ε) :
    SingleFlight θ κ ν ε :=
  match c.flights.get? f with
  | none => c
  | some flight => { c with flights := c.flights.set f (change flight) }

section

omit [DecidableEq θ] [DecidableEq κ]

variable (c : SingleFlight θ κ ν ε) (f : Nat) (change : Flight θ ν ε → Flight θ ν ε)

@[simp] theorem slots_updateFlight : (c.updateFlight f change).slots = c.slots := by
  unfold updateFlight; split <;> rfl

@[simp] theorem waiting_updateFlight : (c.updateFlight f change).waiting = c.waiting := by
  unfold updateFlight; split <;> rfl

@[simp] theorem length_updateFlight : (c.updateFlight f change).flights.length = c.flights.length := by
  unfold updateFlight
  split
  · rfl
  next h => simp [Table.length_set, h]

theorem get?_updateFlight (g : Nat) :
    (c.updateFlight f change).flights.get? g =
      if f = g then (c.flights.get? g).map change else c.flights.get? g := by
  unfold updateFlight
  split
  next h => by_cases hg : f = g <;> simp_all
  next h => by_cases hg : f = g <;> simp_all [Table.get?_set]

end

/-- Shows `v` to whoever asks for the key before the load has ended. -/
def publish (c : SingleFlight θ κ ν ε) (f : Nat) (v : ν) : SingleFlight θ κ ν ε :=
  c.updateFlight f fun flight => { flight with placeholder := some v }

/-- Puts the result of a load into its slot, if the slot still belongs to that load. -/
def store (c : SingleFlight θ κ ν ε) (key : κ) (f : Nat) (result : Except ε ν) :
    SingleFlight θ κ ν ε :=
  if c.loadOf? key = some f then
    match result with
    | .ok v => { c with slots := c.slots.set key (.ready v) }
    | .error _ => { c with slots := c.slots.erase key }
  else c

/-- Hands the result of a load to those who wait for it. -/
def finish (c : SingleFlight θ κ ν ε) (f : Nat) (result : Except ε ν) : SingleFlight θ κ ν ε :=
  c.updateFlight f fun flight => { flight with state := .done result }

def settle (c : SingleFlight θ κ ν ε) (key : κ) (f : Nat) (result : Except ε ν) :
    SingleFlight θ κ ν ε :=
  (c.store key f result).finish f result

/-- Empties the slot of a load that ended without a result, if it is still its slot. -/
def detach (c : SingleFlight θ κ ν ε) (key : κ) (f : Nat) : SingleFlight θ κ ν ε :=
  if c.loadOf? key = some f then { c with slots := c.slots.erase key } else c

/-- Tells those who wait for a load that it has no result. -/
def giveUp (c : SingleFlight θ κ ν ε) (f : Nat) : SingleFlight θ κ ν ε :=
  c.updateFlight f fun flight => { flight with state := .abandoned }

/-- Notes that a thread no longer waits. -/
def awaken (c : SingleFlight θ κ ν ε) (me : θ) : SingleFlight θ κ ν ε :=
  { c with waiting := c.waiting.erase me }

/-- The value of a key that is not being loaded. -/
def get? (c : SingleFlight θ κ ν ε) (key : κ) : Option ν :=
  match c.slots.get? key with
  | some (.ready v) => some v
  | _ => none

def invalidate (c : SingleFlight θ κ ν ε) (key : κ) : SingleFlight θ κ ν ε :=
  { c with slots := c.slots.erase key }

def clear (c : SingleFlight θ κ ν ε) : SingleFlight θ κ ν ε := { c with slots := [] }

/-- The keys that have values. -/
def keys (c : SingleFlight θ κ ν ε) : List κ :=
  c.slots.filterMap fun s => match s.2 with
    | .ready _ => some s.1
    | .loading _ => none

end SingleFlight
end Cascade
