import Cascade.Node.Override
import Cascade.Proofs.Hierarchy
import Cascade.Proofs.Node.Caching
/-!
What a write of an override does to a node: its level has another copy of the data file, and some
classes have been forgotten. As long as a write changes no file but that of its level, no two levels
share a file, and what is written is read as it was written, a node has in memory what its data
files say.
-/
namespace Cascade

/-- What a node can be asked to do with its classes. -/
inductive NodeCall
  | resolve (name : String)
  | setProperty (className property : String) (v : Value) (level : Nat)
  | removeProperty (className property : String) (level : Nat)

namespace NodeCall

/-- The level that a call writes to. -/
def level? : NodeCall → Option Nat
  | resolve _ => none
  | setProperty _ _ _ level | removeProperty _ _ level => some level

def isWrite (c : NodeCall) : Bool := c.level?.isSome

/-- The path of the data file that a call writes. -/
def path? (c : NodeCall) (m : Machine Host) : Option String :=
  c.level?.bind fun n => (m.host.node.compiled.levels[n]?).map (·.path)

/-- The node after a call; one that fails changes nothing. -/
def run (c : NodeCall) (m : Machine Host) : Machine Host :=
  match c with
  | resolve name => (m.resolve name).2
  | setProperty className property v level =>
    (m.setProperty className property v level).toOption.getD m
  | removeProperty className property level =>
    ((m.removeProperty className property level).toOption.map (·.2)).getD m

end NodeCall

/-- The paths that are read when the hierarchy of a node is bound: its templates are filled in from
the facts, and from the facts with what the headers of data files set. -/
def Node.dataPaths (n : Node) : List String :=
  n.hierarchy.levels.flatMap fun level =>
    [n.facts, n.compiled.facts].map fun facts =>
      Compiled.pathOf n.hierarchy level facts n.identity.facts

theorem Node.mem_dataPaths {n : Node} {level : Level} {facts : Facts}
    (hl : level ∈ n.hierarchy.levels) (hf : facts ∈ [n.facts, n.compiled.facts]) :
    Compiled.pathOf n.hierarchy level facts n.identity.facts ∈ n.dataPaths :=
  List.mem_flatMap.mpr ⟨level, hl, List.mem_map.mpr ⟨facts, hf, rfl⟩⟩

theorem get?_of_invalidate {κ ν : Type} [DecidableEq κ] {c : Cache κ ν} {name k : κ} {s : Slot ν}
    (h : (c.invalidate name).slots.get? k = some s) : c.slots.get? k = some s := by
  rw [SingleFlight.invalidate, Table.get?_erase] at h
  split at h
  · exact absurd h (by simp)
  · exact h

theorem get?_of_forgetClasses {parentOf : Nat → Option String} {steps : Nat}
    {c : Cache String Nat} {name k : String} {s : Slot Nat}
    (h : (forgetClasses parentOf steps c name).slots.get? k = some s) :
    c.slots.get? k = some s := by
  induction steps generalizing c name with
  | zero => exact h
  | succ steps ih =>
    unfold forgetClasses at h
    split at h
    · exact get?_of_invalidate h
    · split at h
      · exact get?_of_invalidate h
      · exact get?_of_invalidate (ih h)

namespace Machine

/-- Some classes have been forgotten, and nothing else has happened to what was resolved. -/
structure Forgets (m m' : Machine Host) : Prop where
  instances : m'.instances = m.instances
  functions : m'.host.node.functions = m.host.node.functions
  classes : ∀ k s, m'.host.node.classes.slots.get? k = some s →
    m.host.node.classes.slots.get? k = some s

/-- What a write to a level may do. -/
structure Writes (n : Nat) (m m' : Machine Host) : Prop where
  forgets : m.Forgets m'
  alike : m.host.node.Alike m'.host.node
  level : ∃ l copy, m.host.node.compiled.levels[n]? = some l ∧
    m'.host.node.compiled = m.host.node.compiled.putLevel n { l with file := copy } ∧
      DataFile.Kept l.path m.host.world.files copy m'.host.world.files

variable {m m' : Machine Host} {className property : String} {v : Value} {level n : Nat}
  {c : NodeCall}

theorem Forgets.numbered (hf : m.Forgets m') (h : m.Numbered) : m'.Numbered := by
  intro i hi
  rw [Machine.instance?, hf.instances] at hi
  rw [hf.instances]
  exact h i hi

theorem Forgets.refl (m : Machine Host) : m.Forgets m := ⟨rfl, rfl, fun _ _ h => h⟩

theorem Forgets.view? (hf : m.Forgets m') (i : Nat) : m'.view? i = m.view? i := by
  rw [Machine.view?, Machine.instance?, hf.instances]
  rfl

theorem exists_of_setProperty (h : m.setProperty className property v level = .ok m') :
    let name := Name.normalize className
    ∃ compiled files entropy, m.host.node.compiled.assign m.host.world.files m.host.world.entropy
        level (overrideKey name property) v = .ok (compiled, files, entropy) ∧
      m' = { m with host := { m.host.withCompiled compiled files with
        world := { m.host.world with files, entropy } } }.invalidateClass name := by
  obtain ⟨⟨compiled, files, entropy⟩, ha, h⟩ := bind_eq_ok.mp h
  exact ⟨compiled, files, entropy, NodeError.liftM_eq_ok.mp ha, (Except.ok.inj h).symm⟩

theorem exists_of_removeProperty {removed : Option Value}
    (h : m.removeProperty className property level = .ok (removed, m')) :
    let name := Name.normalize className
    let key := overrideKey name property
    ∃ compiled files,
      m.host.node.compiled.erase m.host.world.files level key = .ok (removed, compiled, files) ∧
      let h := m.host.withCompiled compiled files
      m' = { m with host := { h with
        node := h.node.forgetSource .property key } }.invalidateClass name := by
  obtain ⟨⟨w, compiled, files⟩, he, h⟩ := bind_eq_ok.mp h
  obtain ⟨rfl, rfl⟩ := Prod.mk.inj (Except.ok.inj h)
  exact ⟨compiled, files, NodeError.liftM_eq_ok.mp he, rfl⟩

theorem writes_setProperty (h : m.setProperty className property v level = .ok m') :
    m.Writes level m' := by
  obtain ⟨compiled, files, entropy, ha, rfl⟩ := exists_of_setProperty h
  exact ⟨⟨rfl, rfl, fun _ _ h => get?_of_forgetClasses h⟩, ⟨rfl, rfl, rfl, rfl⟩,
    Compiled.exists_of_assign ha⟩

theorem writes_removeProperty {removed : Option Value}
    (h : m.removeProperty className property level = .ok (removed, m')) : m.Writes level m' := by
  obtain ⟨compiled, files, he, rfl⟩ := exists_of_removeProperty h
  obtain ⟨l, hl⟩ := Compiled.exists_level_of_erase he
  obtain ⟨copy, hcompiled, -, hkept⟩ := Compiled.exists_of_erase hl he
  exact ⟨⟨rfl, rfl, fun _ _ h => get?_of_forgetClasses h⟩, ⟨rfl, rfl, rfl, rfl⟩,
    l, copy, hl, hcompiled, hkept⟩

/-- A write that fails does nothing. -/
theorem run_eq_or_writes (hc : c.level? = some n) (m : Machine Host) :
    c.run m = m ∨ m.Writes n (c.run m) := by
  cases c with
  | resolve name => exact absurd hc (by simp [NodeCall.level?])
  | setProperty className property v level =>
    obtain rfl : level = n := by simpa [NodeCall.level?] using hc
    cases h : m.setProperty className property v level with
    | error e => exact .inl (by simp [NodeCall.run, h, Except.toOption])
    | ok m' => exact .inr (by simpa [NodeCall.run, h, Except.toOption] using writes_setProperty h)
  | removeProperty className property level =>
    obtain rfl : level = n := by simpa [NodeCall.level?] using hc
    cases h : m.removeProperty className property level with
    | error e => exact .inl (by simp [NodeCall.run, h, Except.toOption])
    | ok r => exact .inr (by simpa [NodeCall.run, h, Except.toOption] using writes_removeProperty h)

theorem forgets_run (hw : c.isWrite = true) (m : Machine Host) : m.Forgets (c.run m) := by
  obtain ⟨n, hc⟩ := Option.isSome_iff_exists.mp hw
  rcases run_eq_or_writes hc m with he | hw
  · rw [he]
    exact .refl m
  · exact hw.forgets

/-- What a node has in memory of its data files is what they say, and no two levels share one. -/
structure InStep (m : Machine Host) : Prop where
  identity : Identity.ofCertname m.host.node.identity.certname = m.host.node.identity
  bound : Compiled.compile m.host.world.files m.host.node.hierarchy m.host.node.facts
    m.host.node.identity.facts = .ok m.host.node.compiled
  apart : (m.host.node.compiled.levels.map (·.path)).Nodup

end Machine

/-- A call changes no data file of the node but that of the level it writes to, and what it writes
is read as it was written. -/
structure NodeCall.Tidy (c : NodeCall) (m : Machine Host) : Prop where
  apart : ∀ p ∈ m.host.node.dataPaths, c.path? m ≠ some p →
    DataFile.open (c.run m).host.world.files p = DataFile.open m.host.world.files p
  legible : ∀ n l f, c.level? = some n → (c.run m).host.node.compiled.levels[n]? = some l →
    l.file = some f → DataFile.parse f.path f.text = .ok f

namespace Machine.InStep

variable {m m' : Machine Host} {c : NodeCall}

/-- Loads that leave the data files as they are leave the node in step with them. -/
theorem onward (h : m.InStep) (ho : m.host.Onward m'.host)
    (hfiles : ∀ p ∈ m.host.node.dataPaths,
      DataFile.open m'.host.world.files p = DataFile.open m.host.world.files p) : m'.InStep where
  identity := by
    rw [ho.alike.identity]
    exact h.identity
  bound := by
    rw [ho.alike.hierarchy, ho.alike.facts, ho.alike.identity, ho.compiled]
    exact Compiled.compile_congr h.bound fun level hm facts hf =>
      hfiles _ (Node.mem_dataPaths hm hf)
  apart := by
    rw [ho.compiled]
    exact h.apart

/-- A tidy write leaves the node in step with its data files. -/
theorem write (h : m.InStep) (ht : c.Tidy m) (hw : c.isWrite = true) : (c.run m).InStep := by
  obtain ⟨n, hc⟩ := Option.isSome_iff_exists.mp hw
  rcases run_eq_or_writes hc m with he | hwrites
  · rw [he]
    exact h
  · obtain ⟨l, copy, hl, hcompiled, hkept⟩ := hwrites.level
    have hpath : c.path? m = some l.path := by
      simp [NodeCall.path?, hc, hl]
    have hlevel : (c.run m).host.node.compiled.levels[n]? = some { l with file := copy } := by
      rw [hcompiled, Compiled.putLevel, List.getElem?_set_self (List.getElem?_eq_some_iff.mp hl).1]
    obtain ⟨hcopy, old, hold, hfacts⟩ := hkept.open fun f hf => ht.legible n _ f hc hlevel hf
    refine ⟨?_, ?_, ?_⟩
    · rw [hwrites.alike.identity]
      exact h.identity
    · rw [hwrites.alike.hierarchy, hwrites.alike.facts, hwrites.alike.identity, hcompiled,
        Compiled.putLevel_eq h.apart hl]
      refine Compiled.compile_refreshed h.bound (fun level hm facts hf hp => ?_) hold hcopy hfacts
      refine ht.apart _ (Node.mem_dataPaths hm hf) ?_
      rw [hpath]
      exact fun he => hp (Option.some.inj he).symm
    · rw [hcompiled, Compiled.paths_putLevel hl]
      exact h.apart

end Machine.InStep

end Cascade
