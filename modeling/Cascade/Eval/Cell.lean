import Cascade.Error
/-!
What is known about the value of one node. A cell moves from `unresolved` to `resolving` and from there
to an outcome, which it keeps. A node that is asked for while it is being resolved answers `undef`: it
depends on itself, and there is no value yet.
-/
namespace Cascade

inductive CellState
  | unresolved
  | resolving
  | resolved (v : Value)
  | returned (v : Value)
  | failed (f : Fault)
  deriving Inhabited

namespace CellState

def name : CellState → String
  | unresolved => "Unresolved"
  | resolving => "Resolving"
  | resolved _ => "Resolved"
  | returned _ => "Returned"
  | failed _ => "Failed"

/-- The answer of a cell, and its next state; without an answer the node has to be evaluated. -/
def begin : CellState → Option Outcome × CellState
  | unresolved => (none, resolving)
  | resolving => (some (.ok .undef), resolving)
  | resolved v => (some (.ok v), resolved v)
  | returned v => (some (.error (.returned v)), returned v)
  | failed f => (some (.error (.fault f)), failed f)

def ofOutcome : Outcome → CellState
  | .ok v => resolved v
  | .error (.returned v) => returned v
  | .error (.fault f) => failed f

@[simp] theorem begin_ofOutcome (o : Outcome) : (ofOutcome o).begin = (some o, ofOutcome o) := by
  rcases o with (v | f) | v <;> rfl

end CellState
end Cascade
