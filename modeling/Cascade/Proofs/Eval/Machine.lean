import Cascade.Eval.Class
import Cascade.Eval.Function
import Cascade.Proofs.Run
import Mathlib.Data.Set.Insert
/-!
How programs of the evaluator run, and what a machine looks like after a run. What an evaluation
works on is its own: one instance or the variables of one call, and the cells of one copy.
Everything else that was there before it leaves as it found it.
-/
namespace Cascade

variable {η : Type}

theorem run_ofAct {α : Type} (x : Act η α) (m : Machine η) :
    (Eval.ofAct x).run m = ((x.run m).1.mapError .fault, (x.run m).2) := by
  change Eval.ofAct x m = _
  unfold Eval.ofAct
  rcases x.run m with ⟨f | a, m'⟩ <;> rfl

/-- How a `return` ends. -/
def settled : Outcome → Except Fault Value
  | .ok v | .error (.returned v) => .ok v
  | .error (.fault f) => .error f

theorem run_settle (x : Eval η Value) (m : Machine η) :
    (Eval.settle x).run m = (settled (x.run m).1, (x.run m).2) := by
  change Eval.settle x m = _
  unfold Eval.settle
  rcases x.run m with ⟨(v | f) | v, m'⟩ <;> rfl

def Fault.map (change : EvalError → EvalError) : Fault → Fault
  | .error e => .error (change e)
  | .exhausted => .exhausted

theorem run_mapError {α : Type} (change : EvalError → EvalError) (x : Act η α) (m : Machine η) :
    (Act.mapError change x).run m = ((x.run m).1.mapError (Fault.map change), (x.run m).2) := by
  rw [Act.mapError, run_tryCatch]
  rcases x.run m with ⟨(e | _) | a, m'⟩ <;> rfl

theorem run_memo (copy node : Nat) (x : Eval η Value) (m : Machine η) :
    (Eval.memo copy node x).run m = match (m.cell copy node).begin with
      | (some o, _) => (o, m)
      | (none, s) => ((x.run (m.setCell copy node s)).1,
          (x.run (m.setCell copy node s)).2.setCell copy node
            (.ofOutcome (x.run (m.setCell copy node s)).1)) := by
  change Eval.memo copy node x m = _
  unfold Eval.memo
  rcases (m.cell copy node).begin with ⟨_ | o, s⟩ <;> rfl

theorem run_memo_unresolved {copy node : Nat} {x : Eval η Value} {m : Machine η}
    (h : m.cell copy node = .unresolved) : (Eval.memo copy node x).run m =
      ((x.run (m.setCell copy node .resolving)).1,
        (x.run (m.setCell copy node .resolving)).2.setCell copy node
          (.ofOutcome (x.run (m.setCell copy node .resolving)).1)) := by
  rw [run_memo, h]
  rfl

theorem run_attempt {α : Type} (x : Act η α) (m : Machine η) :
    (Act.attempt x).run m = (.ok (x.run m).1, (x.run m).2) := rfl

/-- Whether an outcome is a good one. -/
def succeeded {α : Type} : Except Fault α → Except Fault Bool
  | .ok _ => .ok true
  | .error (.error _) => .ok false
  | .error .exhausted => .error .exhausted

theorem run_succeeds {α : Type} (x : Act η α) (m : Machine η) :
    (Act.succeeds x).run m = (succeeded (x.run m).1, (x.run m).2) := by
  unfold Act.succeeds
  rw [run_bind, run_attempt]
  rcases x.run m with ⟨(e | _) | a, m'⟩ <;> rfl

/-- An instance without the number of its copy, which is all that may tell it from its like. -/
def Instance.bare (i : Instance) : Instance := { i with copy := 0 }

/-- What one evaluation can own of a machine. -/
inductive Part
  | instance (i : Nat)
  | cells (copy : Nat)
  | frame

def Scope.part : Scope → Part
  | frame => .frame
  | object i => .instance i

/-- Where an evaluation takes place. -/
structure Spot where
  scope : Scope
  copy : Nat

namespace Spot

/-- An evaluation there, with a resolver to make its requests to. -/
def env (s : Spot) (r : Resolver η) : Env η := ⟨r, s.scope, s.copy⟩

def owns (s : Spot) : Set Part := {s.scope.part, .cells s.copy}

end Spot

namespace Machine

def view? (m : Machine η) (i : Nat) : Option Instance := (m.instance? i).map Instance.bare

theorem bind_view? {α : Type} {f : Instance → Option α} (hf : ∀ a, f a.bare = f a)
    (m : Machine η) (i : Nat) : (m.view? i).bind f = (m.instance? i).bind f := by
  rw [view?, Option.bind_map]
  congr 1
  funext a
  exact hf a

/-- Instances have the numbers in which they were made. -/
def Numbered (m : Machine η) : Prop :=
  ∀ i, (m.instance? i).isSome → i < m.instances.length

/-- `m'` comes after `m`, and only what is owned of `m` may have changed. -/
structure After (own : Set Part) (m m' : Machine η) : Prop where
  instances : ∀ i < m.instances.length, .instance i ∉ own → m'.instance? i = m.instance? i
  cells : ∀ c < m.copies, .cells c ∉ own → ∀ n, m'.cell c n = m.cell c n
  frame : .frame ∉ own → m'.frame = m.frame
  length_le : m.instances.length ≤ m'.instances.length
  copies_le : m.copies ≤ m'.copies
  numbered : m.Numbered → m'.Numbered

variable {m m' m'' : Machine η} {own : Set Part}

theorem After.refl (own : Set Part) (m : Machine η) : m.After own m :=
  ⟨fun _ _ _ => rfl, fun _ _ _ _ => rfl, fun _ => rfl, le_rfl, le_rfl, id⟩

theorem After.trans (h : m.After own m') (h' : m'.After own m'') : m.After own m'' where
  instances i hi ho := (h'.instances i (hi.trans_le h.length_le) ho).trans (h.instances i hi ho)
  cells c hc ho n := (h'.cells c (hc.trans_le h.copies_le) ho n).trans (h.cells c hc ho n)
  frame ho := (h'.frame ho).trans (h.frame ho)
  length_le := h.length_le.trans h'.length_le
  copies_le := h.copies_le.trans h'.copies_le
  numbered hn := h'.numbered (h.numbered hn)

theorem After.mono {own' : Set Part} (h : m.After own m') (ho : own ⊆ own') : m.After own' m' where
  instances i hi hn := h.instances i hi fun hm => hn (ho hm)
  cells c hc hn := h.cells c hc fun hm => hn (ho hm)
  frame hn := h.frame fun hm => hn (ho hm)
  length_le := h.length_le
  copies_le := h.copies_le
  numbered := h.numbered

/-- A host is no part of what evaluations own. -/
theorem After.of_host (own : Set Part) (m : Machine η) (host : η) :
    m.After own { m with host := host } :=
  ⟨fun _ _ _ => rfl, fun _ _ _ _ => rfl, fun _ => rfl, le_rfl, le_rfl, id⟩

@[simp] theorem length_updateInstance (m : Machine η) (i : Nat) (change : Instance → Instance) :
    (m.updateInstance i change).instances.length = m.instances.length := by
  unfold updateInstance
  split
  · rfl
  next h => simp [Table.length_set, h]

theorem instance?_updateInstance (m : Machine η) (i j : Nat) (change : Instance → Instance) :
    (m.updateInstance i change).instance? j =
      if i = j then (m.instance? j).map change else m.instance? j := by
  unfold updateInstance instance?
  split
  next h => by_cases hj : i = j <;> simp_all
  next h => by_cases hj : i = j <;> simp_all [Table.get?_set]

@[simp] theorem host_updateInstance (m : Machine η) (i : Nat) (change : Instance → Instance) :
    (m.updateInstance i change).host = m.host := by
  unfold updateInstance; split <;> rfl

@[simp] theorem frame_updateInstance (m : Machine η) (i : Nat) (change : Instance → Instance) :
    (m.updateInstance i change).frame = m.frame := by
  unfold updateInstance; split <;> rfl

@[simp] theorem copies_updateInstance (m : Machine η) (i : Nat) (change : Instance → Instance) :
    (m.updateInstance i change).copies = m.copies := by
  unfold updateInstance; split <;> rfl

@[simp] theorem cell_updateInstance (m : Machine η) (i : Nat) (change : Instance → Instance)
    (copy node : Nat) : (m.updateInstance i change).cell copy node = m.cell copy node := by
  unfold updateInstance; split <;> rfl

theorem Numbered.updateInstance (h : m.Numbered) (i : Nat) (change : Instance → Instance) :
    (m.updateInstance i change).Numbered := by
  intro j hj
  rw [length_updateInstance]
  apply h
  rw [instance?_updateInstance] at hj
  split at hj
  · simpa using hj
  · exact hj

theorem after_updateInstance {i : Nat} (ho : .instance i ∈ own) (m : Machine η)
    (change : Instance → Instance) : m.After own (m.updateInstance i change) where
  instances j _ hn := by
    have hij : i ≠ j := by
      rintro rfl
      exact hn ho
    rw [instance?_updateInstance, if_neg hij]
  cells _ _ _ _ := by simp
  frame _ := by simp
  length_le := by simp
  copies_le := by simp
  numbered h := h.updateInstance i change

theorem after_setCell {copy : Nat} (ho : .cells copy ∈ own) (m : Machine η) (node : Nat)
    (s : CellState) : m.After own (m.setCell copy node s) where
  instances _ _ _ := rfl
  cells c _ hn n := by
    have hc : copy ≠ c := by
      rintro rfl
      exact hn ho
    simp [hc]
  frame _ := rfl
  length_le := le_rfl
  copies_le := le_rfl
  numbered := id

theorem after_frame (ho : .frame ∈ own) (m : Machine η) (frame : Table String Value) :
    m.After own { m with frame := frame } where
  instances _ _ _ := rfl
  cells _ _ _ _ := rfl
  frame hn := absurd ho hn
  length_le := le_rfl
  copies_le := le_rfl
  numbered := id

theorem view?_updateInstance {change : Instance → Instance}
    (hc : ∀ a, (change a).bare = change a.bare) (m : Machine η) (i : Nat) :
    (m.updateInstance i change).view? i = (m.view? i).map change := by
  simp only [view?, instance?_updateInstance, ↓reduceIte, Option.map_map]
  congr 1
  funext a
  exact hc a

theorem After.view? {i : Nat} (h : m.After own m') (hi : i < m.instances.length)
    (ho : .instance i ∉ own) : m'.view? i = m.view? i := by
  rw [Machine.view?, h.instances i hi ho, Machine.view?]

end Machine

end Cascade
