import Cascade.Node.Write
import Cascade.Proofs.Node.Properties
import Cascade.Proofs.Store
/-!
What a node does to its class lists and overrides, step after step. Every call does as a whole what it
does in steps; and when a step fails the node is as it was before the call.
-/
namespace Cascade

variable {α β : Type}

namespace Writing

variable {d : Disk} {m m' : Machine Host} {e : NodeError}

theorem run_onHierarchy (x : Storing α) (m : Machine Host) : (onHierarchy x).run m =
    ((x.run (stored m)).1.mapError .hierarchy, withStored m (x.run (stored m)).2) := rfl

theorem agrees_ofExcept (r : Except NodeError α) (m : Machine Host) :
    Agrees (ofExcept r) m (r.map (·, m)) := .of_run rfl

theorem agrees_onHierarchy {γ : Type} {x : Storing α} {old : Except HierarchyError γ}
    {k : γ → α × Store} (h : Agrees x (stored m) (old.map k)) : Agrees (onHierarchy x) m
      ((liftM old : Except NodeError γ).map fun c => ((k c).1, withStored m (k c).2)) := by
  cases old with
  | error e =>
    obtain ⟨s, hrun⟩ := h.run_error
    exact .error (t := withStored m s) (by rw [run_onHierarchy, hrun]; rfl)
  | ok c => exact .ok (by rw [run_onHierarchy, h.run_ok]; rfl)

/-- A class is added as a whole as it is in steps. -/
theorem agrees_assignClass (className : String) (level : Nat) (m : Machine Host) :
    Agrees (assignClass .plain className level) m
      ((m.host.assignClass className level).map fun h => ((), { m with host := h })) := by
  unfold assignClass Host.assignClass
  refine .get_bind (.bind (agrees_ofExcept _ m) fun names _ => ?_)
  dsimp only
  split
  · exact .ok rfl
  · exact .bind (agrees_onHierarchy (Storing.agrees_assignRaw level _ _ (stored m))) fun r _ => .ok rfl

theorem agrees_removeClass (className : String) (level : Nat) (m : Machine Host) :
    Agrees (removeClass .plain className level) m
      ((m.host.removeClass className level).map fun r => (r.1, { m with host := r.2 })) := by
  unfold removeClass Host.removeClass
  refine .get_bind (.bind (agrees_ofExcept _ m) fun names _ => ?_)
  dsimp only
  split
  · exact .ok rfl
  · split
    · simp only [pure_bind]
      exact .bind (agrees_onHierarchy (Storing.agrees_erase level _ (stored m))) fun _ _ => .ok rfl
    · exact .bind (agrees_onHierarchy (Storing.agrees_assignRaw level _ _ (stored m)))
        fun _ _ => .ok rfl

theorem agrees_setProperty (className property : String) (v : Value) (level : Nat)
    (m : Machine Host) : Agrees (setProperty .plain className property v level) m
      ((m.setProperty className property v level).map ((), ·)) :=
  .bind (agrees_onHierarchy (Storing.agrees_assign level _ v (stored m))) fun _ _ => .ok rfl

theorem agrees_removeProperty (className property : String) (level : Nat) (m : Machine Host) :
    Agrees (removeProperty .plain className property level) m
      ((m.removeProperty className property level).map fun r => (r.1, r.2)) :=
  .bind (agrees_onHierarchy (Storing.agrees_erase level _ (stored m))) fun _ _ => .ok rfl

end Writing

/-- What a node can be asked to write. -/
inductive WriteCall
  | assignClass (className : String) (level : Nat)
  | removeClass (className : String) (level : Nat)
  | setProperty (className property : String) (v : Value) (level : Nat)
  | removeProperty (className property : String) (level : Nat)

namespace WriteCall

def level : WriteCall → Nat
  | assignClass _ level | removeClass _ level | setProperty _ _ _ level | removeProperty _ _ level =>
    level

/-- A call, without its answer. -/
def run (d : Disk) : WriteCall → Writing Unit
  | assignClass className level => Writing.assignClass d className level
  | removeClass className level => do let _ ← Writing.removeClass d className level
  | setProperty className property v level => Writing.setProperty d className property v level
  | removeProperty className property level => do
    let _ ← Writing.removeProperty d className property level

/-- How a call has failed: nothing of the machine has changed but the files, and they no more than a
failed write to the level may change them. -/
def Undone (d : Disk) (n : Nat) (m m' : Machine Host) (e : NodeError) : Prop :=
  ∃ files entropy,
    m' = { m with host := { m.host with world := { m.host.world with files, entropy } } } ∧
    (files = m.host.world.files ∨ ∃ cause, e = .hierarchy cause ∧
      m.host.node.compiled.Leaves d n m.host.world.files files cause)

variable {d : Disk} {m m' : Machine Host} {e : NodeError} {n : Nat}

theorem Undone.refl : Undone d n m m e :=
  ⟨m.host.world.files, m.host.world.entropy, rfl, .inl rfl⟩

theorem undone_ofExcept {r : Except NodeError α} (h : (Writing.ofExcept r).run m = (.error e, m')) :
    Undone d n m m' e := by
  obtain ⟨-, rfl⟩ := Prod.mk.inj h
  exact .refl

theorem undone_onHierarchy {x : Storing α}
    (hx : ∀ s' cause, x.run (Writing.stored m) = (.error cause, s') →
      (Writing.stored m).Undone d n s' cause)
    (h : (Writing.onHierarchy x).run m = (.error e, m')) : Undone d n m m' e := by
  rw [Writing.run_onHierarchy] at h
  obtain ⟨he, rfl⟩ := Prod.mk.inj h
  rcases hrun : x.run (Writing.stored m) with ⟨cause | a, s'⟩
  · rw [hrun] at he
    obtain rfl := Except.error.inj he
    obtain ⟨hcompiled, hfiles⟩ := hx s' cause hrun
    refine ⟨s'.files, s'.entropy, ?_, .inr ⟨cause, rfl, hfiles⟩⟩
    rw [Writing.withStored, hcompiled]
    rfl
  · rw [hrun] at he
    exact absurd he (by simp [Except.mapError])

theorem undone_assignClass (hd : d.Lawful) {className : String} {level : Nat}
    (h : (Writing.assignClass d className level).run m = (.error e, m')) :
    Undone d level m m' e := by
  rw [Writing.assignClass, run_bind, run_get] at h
  dsimp only at h
  rcases run_bind_eq_error.mp h with hnames | ⟨names, t, hnames, hrest⟩
  · exact undone_ofExcept hnames
  obtain ⟨-, rfl⟩ := Prod.mk.inj hnames
  split at hrest
  · exact absurd (Prod.mk.inj hrest).1 (by simp)
  · rcases run_bind_eq_error.mp hrest with hwrite | ⟨_, t, -, hlast⟩
    · exact undone_onHierarchy (fun _ _ => Storing.undone_assignRaw hd) hwrite
    · exact absurd (Prod.mk.inj hlast).1 (by simp)

theorem undone_removeClass (hd : d.Lawful) {className : String} {level : Nat}
    (h : (Writing.removeClass d className level).run m = (.error e, m')) :
    Undone d level m m' e := by
  rw [Writing.removeClass, run_bind, run_get] at h
  dsimp only at h
  rcases run_bind_eq_error.mp h with hnames | ⟨names, t, hnames, hrest⟩
  · exact undone_ofExcept hnames
  obtain ⟨-, rfl⟩ := Prod.mk.inj hnames
  split at hrest
  · exact absurd (Prod.mk.inj hrest).1 (by simp)
  · split at hrest
    · rcases run_bind_eq_error.mp hrest with hwrite | ⟨_, t, -, hlast⟩
      · exact undone_onHierarchy (fun _ _ => Storing.undone_erase hd) hwrite
      · exact absurd (Prod.mk.inj hlast).1 (by simp)
    · rcases run_bind_eq_error.mp hrest with hwrite | ⟨_, t, -, hlast⟩
      · exact undone_onHierarchy (fun _ _ => Storing.undone_assignRaw hd) hwrite
      · exact absurd (Prod.mk.inj hlast).1 (by simp)

theorem undone_setProperty (hd : d.Lawful) {className property : String} {v : Value} {level : Nat}
    (h : (Writing.setProperty d className property v level).run m = (.error e, m')) :
    Undone d level m m' e := by
  rcases run_bind_eq_error.mp h with hwrite | ⟨_, t, -, hlast⟩
  · exact undone_onHierarchy (fun _ _ => Storing.undone_assign hd) hwrite
  · exact absurd (Prod.mk.inj hlast).1 (by simp)

theorem undone_removeProperty (hd : d.Lawful) {className property : String} {level : Nat}
    (h : (Writing.removeProperty d className property level).run m = (.error e, m')) :
    Undone d level m m' e := by
  rcases run_bind_eq_error.mp h with hwrite | ⟨_, t, -, hlast⟩
  · exact undone_onHierarchy (fun _ _ => Storing.undone_erase hd) hwrite
  · exact absurd (Prod.mk.inj hlast).1 (by simp)

/-- A call that fails leaves the node as it was: the copies of all levels, what was resolved, and the
sources. No file has changed unless it is the file of the level and to write it was the step that
failed. -/
theorem undone_of_error (hd : d.Lawful) {c : WriteCall} (h : (c.run d).run m = (.error e, m')) :
    Undone d c.level m m' e := by
  cases c with
  | assignClass className level => exact undone_assignClass hd h
  | removeClass className level =>
    rcases run_bind_eq_error.mp h with h | ⟨_, t, -, hlast⟩
    · exact undone_removeClass hd h
    · exact absurd (Prod.mk.inj hlast).1 (by simp)
  | setProperty className property v level => exact undone_setProperty hd h
  | removeProperty className property level =>
    rcases run_bind_eq_error.mp h with h | ⟨_, t, -, hlast⟩
    · exact undone_removeProperty hd h
    · exact absurd (Prod.mk.inj hlast).1 (by simp)

/-- A node with one level, whose path leads through a directory that is not there and back. -/
def roundabout : Node :=
  { Fleet.newcomer "n0" with
    hierarchy := ⟨5, "data", none, [⟨"Up", "x/..", none, none⟩]⟩
    compiled := ⟨[⟨⟨"Up", "x/..", none, none⟩, "data/x/..", none, none⟩], []⟩ }

example : Node.create (.empty [] 0) "n0" [] ⟨5, "data", none, [⟨"Up", "x/..", none, none⟩]⟩ .shelf =
    .ok roundabout := rfl

def atRoundabout : Machine Host := .start ⟨roundabout, .ofFiles (.empty [] 0) ⟨fun _ => 0, 0⟩⟩

/-- The directory has been made, but the path leads to another one, which cannot be written. -/
theorem roundabout_undone : ∃ e m',
    ((assignClass "a" 0).run .plain).run atRoundabout = (.error e, m') ∧
    e = .hierarchy (.io "data/x/.." .isADirectory) ∧
      m'.host.world.files.isDirectory "data/x" = true ∧ Undone .plain 0 atRoundabout m' e := by
  have he : (((assignClass "a" 0).run .plain).run atRoundabout).1 =
      .error (.hierarchy (.io "data/x/.." .isADirectory)) := by decide +kernel
  have hmade : (((assignClass "a" 0).run .plain).run atRoundabout).2.host.world.files.isDirectory
      "data/x" = true := by decide +kernel
  exact ⟨_, _, Prod.ext he rfl, rfl, hmade,
    undone_of_error Disk.plain_lawful (c := assignClass "a" 0) (Prod.ext he rfl)⟩

end WriteCall
end Cascade
