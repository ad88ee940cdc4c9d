import Cascade.SingleFlight.Thread
import Mathlib.Logic.Function.Basic
import Mathlib.Logic.Relation
/-!
Runs of threads that share a cache, in any order of their steps. A loader may go by what it has been
answered, so between two steps it can change what it is still going to do, and threads can start at
any time. A run keeps the deeds of its steps: what they did to the slots of the cache.

What moves preserve is said about the view of a system: the cache, the loads of every thread and the
request that it waits with.
-/
namespace Cascade.SingleFlight

variable {θ κ ν ε : Type}

namespace Thread

/-- The loads of a thread, the innermost first. -/
def loads (t : Thread θ κ ν ε) : List (Load κ ν ε) := t.frames.filterMap Frame.load

@[simp] theorem loads_answered (t : Thread θ κ ν ε) (key : κ) (a : Answer ν ε) :
    (t.answered key a).loads = t.loads := rfl

@[simp] theorem stage_answered (t : Thread θ κ ν ε) (key : κ) (a : Answer ν ε) :
    (t.answered key a).stage = .ready := rfl

@[simp] theorem loads_start (commands : List (Command θ κ ν ε)) : (start commands).loads = [] := rfl

@[simp] theorem stage_start (commands : List (Command θ κ ν ε)) :
    (start commands).stage = .ready := rfl

@[simp] theorem loads_advance (t : Thread θ κ ν ε) : t.advance.loads = t.loads := by
  rcases t with ⟨_ | ⟨f, fs⟩, p, es⟩ <;> rfl

@[simp] theorem loads_askAgain (t : Thread θ κ ν ε) (p : Pending θ κ ν ε) :
    (t.askAgain p).loads = t.loads := by
  rcases t with ⟨_ | ⟨f, fs⟩, q, es⟩ <;> rfl

@[simp] theorem stage_askAgain (t : Thread θ κ ν ε) (p : Pending θ κ ν ε) :
    (t.askAgain p).stage = .ready := rfl

end Thread

/-- What a step does to the slots of the cache. -/
inductive Deed (κ ν ε : Type)
  /-- A load begins, in a flight of its own. -/
  | begins (key : κ) (flight : Nat)
  /-- A load is over, and its slot is filled or emptied if it still belongs to that load. -/
  | ends (l : Load κ ν ε)
  | evicts (key : κ)
  | clears

/-- A deed after which nothing that was loaded or being loaded before is in the slot of the key. -/
def Deed.Empties (key : κ) : Deed κ ν ε → Prop
  | evicts k => k = key
  | clears => True
  | _ => False

/-- The deed of a command, if it is one. -/
def Command.deed? [DecidableEq κ] (c : SingleFlight θ κ ν ε) : Command θ κ ν ε → Option (Deed κ ν ε)
  | get key _ _ => if (c.slots.get? key).isNone then some (.begins key c.flights.length) else none
  | invalidate key => some (.evicts key)
  | clear => some .clears
  | _ => none

namespace System

variable [DecidableEq θ] [DecidableEq κ]

/-- The loads of a thread. -/
def loads (s : System θ κ ν ε) (a : θ) : List (Load κ ν ε) :=
  ((s.threads.get? a).map Thread.loads).getD []

/-- What a thread is about; one that is not there might as well be ready. -/
def stage (s : System θ κ ν ε) (a : θ) : Stage θ κ ν ε :=
  ((s.threads.get? a).map Thread.stage).getD .ready

/-- The deed of the next step of a thread. -/
def deed? (s : System θ κ ν ε) (me : θ) : Option (Deed κ ν ε) :=
  match s.threads.get? me with
  | some ⟨⟨_, command :: _⟩ :: _, .ready, _⟩ => command.deed? s.cache
  | some ⟨⟨some l, []⟩ :: _, .ready, _⟩ => some (.ends l)
  | _ => none

def start : System θ κ ν ε := ⟨.empty, []⟩

end System

/-- The part of a load that was settled when it began. -/
def Load.name (l : Load κ ν ε) : κ × Nat := (l.key, l.flight)

/-- What a thread can change of its own accord: what its loaders still do, and how they end. -/
def Thread.Replans (t u : Thread θ κ ν ε) : Prop :=
  u.stage = t.stage ∧ u.events = t.events ∧
    u.frames.map (fun f => f.load.map Load.name) = t.frames.map fun f => f.load.map Load.name

/-- The runs from a system, with the deeds of their steps, the oldest first. -/
inductive Run [DecidableEq θ] [DecidableEq κ] (s₀ : System θ κ ν ε) :
    List (Deed κ ν ε) → System θ κ ν ε → Prop
  | refl : Run s₀ [] s₀
  | step {deeds s} (h : Run s₀ deeds s) (me : θ) : Run s₀ (deeds ++ (s.deed? me).toList) (s.step me)
  | fork {deeds s} (h : Run s₀ deeds s) {a : θ} (commands : List (Command θ κ ν ε))
      (ha : s.threads.get? a = none) : Run s₀ deeds (s.put a (.start commands) s.cache)
  | replan {deeds s} (h : Run s₀ deeds s) {a : θ} {t u : Thread θ κ ν ε}
      (ht : s.threads.get? a = some t) (hu : t.Replans u) : Run s₀ deeds (s.put a u s.cache)

namespace Run

variable [DecidableEq θ] [DecidableEq κ] {s₀ s s' : System θ κ ν ε}
variable {deeds later : List (Deed κ ν ε)}

theorem trans (h : Run s₀ deeds s) (hl : Run s later s') : Run s₀ (deeds ++ later) s' := by
  induction hl with
  | refl => simpa using h
  | step _ me ih => simpa using ih.step me
  | fork _ commands ha ih => exact ih.fork commands ha
  | replan _ ht hu ih => exact ih.replan ht hu

theorem turns (h : Run s₀ deeds s) (order : List θ) :
    ∃ later, Run s₀ later (order.foldl System.step s) := by
  induction order generalizing s deeds with
  | nil => exact ⟨deeds, h⟩
  | cons a order ih => exact ih (h.step a)

end Run

end Cascade.SingleFlight
