import Cascade.SingleFlight.Thread
/-!
Threads side by side, and what their logs show. In a ring each thread loads one key and then asks for
the next, so that every load waits for another.
-/
namespace Cascade.SingleFlight

variable {θ κ ν ε : Type}

/-- Starts threads at once and waits for all of them. -/
def sideBySide (ids : List θ) (bodies : List (List (Command θ κ ν ε))) : List (Command θ κ ν ε) :=
  List.zipWith .fork ids bodies ++ ids.map .join

/-- The commands of each thread of a ring. A loader first runs `lead`, and asks for the next key only
when all keys are being loaded. -/
def ring (keys : List κ) (lead : List (Command θ κ ν ε)) (value : κ → ν) :
    List (List (Command θ κ ν ε)) :=
  List.zipWith (fun key next =>
      [.get key (lead ++ [.await keys, .get next [] (.value (value next))]) (.value (value key))])
    keys (keys.rotateLeft 1)

namespace Event

def answer? : Event θ κ ν ε → Option (κ × Answer ν ε)
  | .answer key a => some (key, a)
  | _ => none

def loads [DecidableEq κ] (key : κ) : Event θ κ ν ε → Bool
  | .load k => k = key
  | _ => false

end Event

namespace System

variable [DecidableEq θ]

def events (s : System θ κ ν ε) (thread : θ) : List (Event θ κ ν ε) :=
  ((s.threads.get? thread).map (·.events)).getD []

/-- What a thread was answered, in order. -/
def answers (s : System θ κ ν ε) (thread : θ) : List (κ × Answer ν ε) :=
  (s.events thread).filterMap Event.answer?

def countLoads [DecidableEq κ] (s : System θ κ ν ε) (key : κ) (threads : List θ) : Nat :=
  (threads.flatMap s.events).countP (Event.loads key)

end System
end Cascade.SingleFlight
