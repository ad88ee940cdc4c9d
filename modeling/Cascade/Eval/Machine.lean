import Cascade.Eval.Cell
import Cascade.Eval.Instance
/-!
The state an evaluation works on: cells, instances and the variables of the function that runs. What
lies beyond the language, such as a node's caches and files, is the `host`, whose type is left open.

A definition is evaluated in copies: each instance and each call of a function gets a copy of its own,
so cells are named by a copy and the number of a node in it.
-/
namespace Cascade

structure Machine (η : Type) where
  cells : Table Nat (Table Nat CellState)
  instances : Table Nat Instance
  /-- The variables of the innermost function call. -/
  frame : Table String Value
  /-- How many copies have been made. -/
  copies : Nat
  host : η

/-- Operations that end with a result or a fault. -/
abbrev Act (η : Type) := ExceptT Fault (StateM (Machine η))

/-- The evaluation of nodes, which may also return. -/
abbrev Eval (η : Type) := ExceptT Interrupt (StateM (Machine η))

namespace Machine

variable {η : Type}

def start (host : η) : Machine η := ⟨[], [], [], 0, host⟩

def cell (m : Machine η) (copy node : Nat) : CellState :=
  ((m.cells.get? copy).bind fun t => t.get? node).getD .unresolved

def setCell (m : Machine η) (copy node : Nat) (s : CellState) : Machine η :=
  { m with cells := m.cells.set copy (((m.cells.get? copy).getD []).set node s) }

/-- Forgets the cells of a copy that nothing refers to any more. -/
def dropCopy (m : Machine η) (copy : Nat) : Machine η := { m with cells := m.cells.erase copy }

/-- The youngest copy is the one in use, so its cells stand first. -/
def newCopy (m : Machine η) : Nat × Machine η :=
  (m.copies, { m with copies := m.copies + 1, cells := (m.copies, []) :: m.cells })

def instance? (m : Machine η) (i : Nat) : Option Instance := m.instances.get? i

def addInstance (m : Machine η) (i : Instance) : Nat × Machine η :=
  (m.instances.length, { m with instances := m.instances.set m.instances.length i })

def updateInstance (m : Machine η) (i : Nat) (change : Instance → Instance) : Machine η :=
  match m.instances.get? i with
  | none => m
  | some inst => { m with instances := m.instances.set i (change inst) }

@[simp] theorem cell_setCell (m : Machine η) (copy node copy' node' : Nat) (s : CellState) :
    (m.setCell copy node s).cell copy' node' =
      if copy = copy' ∧ node = node' then s else m.cell copy' node' := by
  unfold cell setCell
  by_cases hc : copy = copy'
  · subst hc
    by_cases hn : node = node'
    · simp [hn]
    · cases h : m.cells.get? copy <;> simp [hn, Table.get?_set]
  · simp [Table.get?_set, hc]

@[simp] theorem cell_newCopy (m : Machine η) (copy node : Nat) :
    m.newCopy.2.cell copy node = if m.copies = copy then .unresolved else m.cell copy node := by
  unfold cell newCopy
  by_cases h : m.copies = copy <;> simp [h]

@[simp] theorem cell_dropCopy (m : Machine η) (copy copy' node : Nat) :
    (m.dropCopy copy).cell copy' node = if copy = copy' then .unresolved else m.cell copy' node := by
  unfold cell dropCopy
  by_cases h : copy = copy' <;> simp [Table.get?_erase, h]

end Machine

namespace Act

variable {η α : Type}

def error (e : EvalError) : Act η α := throw (.error e)

/-- Runs `x` and gives its outcome, whatever it is. -/
def attempt (x : Act η α) : Act η (Except Fault α) := fun m =>
  let (r, m) := x.run m
  (.ok r, m)

/-- Runs `x` and tells whether it went well. A lack of depth is not an answer and ends it all. -/
def succeeds (x : Act η α) : Act η Bool := do
  match ← attempt x with
  | .ok _ => return true
  | .error (.error _) => return false
  | .error .exhausted => throw .exhausted

/-- Changes the error of `x`. -/
def mapError (change : EvalError → EvalError) (x : Act η α) : Act η α :=
  tryCatch x fun
    | .error e => throw (.error (change e))
    | .exhausted => throw .exhausted

end Act

namespace Eval

variable {η α : Type}

def error (e : EvalError) : Eval η α := throw (.fault (.error e))

def ofAct (x : Act η α) : Eval η α := fun m =>
  match x.run m with
  | (.ok a, m) => (.ok a, m)
  | (.error f, m) => (.error (.fault f), m)

instance : MonadLift (Act η) (Eval η) := ⟨ofAct⟩

instance : MonadLift (Except EvalError) (Eval η) where
  monadLift
    | .ok a => pure a
    | .error e => error e

/-- Runs `x` and gives its outcome, whatever it is. -/
def attempt (x : Eval η α) : Eval η (Except Interrupt α) := fun m =>
  let (r, m) := x.run m
  (.ok r, m)

/-- A `return` ends here with its value. -/
def settle (x : Eval η Value) : Act η Value := fun m =>
  match x.run m with
  | (.ok v, m) | (.error (.returned v), m) => (.ok v, m)
  | (.error (.fault f), m) => (.error f, m)

/-- The outcome that the cell of a node has, or that of `x`, which the cell keeps. -/
def memo (copy node : Nat) (x : Eval η Value) : Eval η Value := fun m =>
  match (m.cell copy node).begin with
  | (some outcome, _) => (outcome, m)
  | (none, s) =>
    let (outcome, m) := x.run (m.setCell copy node s)
    (outcome, m.setCell copy node (.ofOutcome outcome))

end Eval
end Cascade
