import Cascade.Environment.Workspace
import Cascade.Proofs.Binding
/-!
What becomes of warnings. A workspace and its environments collect them, and they are handed out on
demand. None is handed out twice, and none gets lost but those that an environment still has when
another is opened or inserted in its place; a closed one leaves its warnings with the workspace.
-/
namespace Cascade

/-- Calls of an environment. -/
inductive EnvironmentCall
  | node (certname : String)
  | closeNode (certname : String)
  | build
  | reload
  | warn (n : Notice)
  /-- Whatever is asked of a node that is open. -/
  | use (certname : String) (work : Node → World → Node × World)

namespace EnvironmentCall

def run (e : Environment) (w : World) : EnvironmentCall → Environment × World
  | .node certname => (e.node w certname).2
  | .closeNode certname => ((e.closeNode certname).2, w)
  | .build => (e.build w).2
  | .reload => ((e.reload w.files).2, w)
  | .warn n => (e.warn n, w)
  | .use certname work => match e.nodes.get? certname with
    | none => (e, w)
    | some n =>
      let (n', w) := work n.node w
      (e.putNode certname { n with node := n' }, w)

/-- The warnings that an environment collects in a call: one about the facts of a new node that cannot
be had, and one about every batch that a build reports as failed. -/
def collected (e : Environment) (w : World) : EnvironmentCall → List Notice
  | .node certname => match e.nodes.get? certname, e.facts.get w.files certname with
    | none, .error n => [⟨n.title, certname ++ ": " ++ n.message⟩]
    | _, _ => []
  | .build => match (e.build w).1 with
    | .ok report =>
      report.failures.map fun f => ⟨"Build failed", (BuildError.batch f.1 f.2).message⟩
    | .error _ => []
  | .warn n => [n]
  | .closeNode _ | .reload | .use .. => []

end EnvironmentCall

namespace Environment

variable {e : Environment} {w : World}

theorem foldl_warn {α : Type} (f : α → Notice) (as : List α) (e : Environment) :
    as.foldl (fun e a => e.warn (f a)) e = { e with warnings := e.warnings ++ as.map f } := by
  induction as generalizing e with
  | nil => simp
  | cons a as ih =>
    rw [List.foldl_cons, ih, warn, List.map_cons, List.append_assoc, List.singleton_append]

/-- An environment with more warnings, which has been given other nodes or another hierarchy. -/
def Warned (e e' : Environment) (more : List Notice) : Prop :=
  e'.config = e.config ∧ e'.warnings = e.warnings ++ more

theorem Warned.refl (e : Environment) : e.Warned e [] := ⟨rfl, (List.append_nil _).symm⟩

theorem warned_node (certname : String) :
    e.Warned (e.node w certname).2.1 (EnvironmentCall.collected e w (.node certname)) := by
  unfold EnvironmentCall.collected Environment.node fetchFacts
  split
  next n hn =>
    simp only [hn]
    exact .refl e
  next hn =>
    simp only [hn]
    cases hf : e.facts.get w.files certname with
    | ok facts =>
      dsimp only
      split <;> exact .refl e
    | error n =>
      dsimp only
      split <;> exact ⟨rfl, rfl⟩

theorem warned_build : e.Warned (e.build w).2.1 (EnvironmentCall.collected e w .build) := by
  unfold EnvironmentCall.collected build
  split
  · exact .refl e
  next c hc =>
    rcases hr : (Build.build e.config.buildConfig c.compiler).run (w.files, ()) with
      ⟨error | report, files, _⟩
    · exact .refl e
    · exact ⟨by simp [foldl_warn], by simp [foldl_warn]⟩

/-- A call keeps the configuration, and adds what it collects to the warnings. -/
theorem warned_run (c : EnvironmentCall) : e.Warned (c.run e w).1 (c.collected e w) := by
  cases c with
  | node certname => exact warned_node certname
  | closeNode certname => exact .refl e
  | build => exact warned_build
  | reload =>
    unfold EnvironmentCall.run reload
    dsimp only
    split <;> exact .refl e
  | warn n => exact ⟨rfl, rfl⟩
  | use certname work =>
    unfold EnvironmentCall.run
    dsimp only
    split <;> exact .refl e

theorem of_open {config : EnvironmentConfig} {r : Environment × World}
    (h : Environment.open w config = .ok r) : r.1.name = config.name ∧ r.1.warnings = [] := by
  obtain ⟨hierarchy, -, h⟩ := bind_eq_ok.mp h
  obtain ⟨compiler, -, h⟩ := bind_eq_ok.mp h
  obtain rfl := Except.ok.inj h
  exact ⟨rfl, rfl⟩

end Environment

namespace Table

variable {κ α β : Type} [DecidableEq κ]

/-- All that the values of a table have, when one of them is set. -/
theorem flatMap_set_perm [DecidableEq β] (t : Table κ α) (key : κ) (v : α) (f : α → List β) :
    ((set t key v).flatMap (fun e => f e.2) ++ (get? t key).elim [] f).Perm
      (t.flatMap (fun e => f e.2) ++ f v) := by
  induction t with
  | nil => simp [set]
  | cons e t ih =>
    obtain ⟨k, w⟩ := e
    rw [List.perm_iff_count] at ih ⊢
    intro b
    have ih := ih b
    by_cases h : k = key
    · simp only [set, if_pos h, get?_cons, List.flatMap_cons, Option.elim_some, List.count_append]
      omega
    · simp only [set, if_neg h, get?_cons, List.flatMap_cons, List.count_append] at ih ⊢
      omega

/-- All that the values of a table have, when one of them is erased. -/
theorem flatMap_erase_perm {t : Table κ α} (h : (keys t).Nodup) (key : κ) (f : α → List β) :
    ((erase t key).flatMap (fun e => f e.2) ++ (get? t key).elim [] f).Perm
      (t.flatMap fun e => f e.2) := by
  induction t with
  | nil => simp [erase]
  | cons e t ih =>
    obtain ⟨k, w⟩ := e
    obtain ⟨hk, ht⟩ := List.nodup_cons.mp h
    by_cases he : k = key
    · subst he
      have hnone : get? t k = none := Option.not_isSome_iff_eq_none.mp (mt isSome_get?_iff.mp hk)
      rw [erase, if_pos rfl, erase_eq_self hnone, get?_cons, if_pos rfl]
      exact List.perm_append_comm
    · rw [erase, if_neg he, get?_cons, if_neg he, List.flatMap_cons, List.flatMap_cons,
        List.append_assoc]
      exact (ih ht).append_left _

end Table

/-- Calls of a workspace. A call of an environment goes to the one that is open under a name. -/
inductive WorkspaceCall
  | «open» (config : EnvironmentConfig)
  | insert (e : Environment)
  | close (name : String)
  | environment (name : String) (call : EnvironmentCall)
  | warnings
  /-- Something happens outside the workspace. -/
  | outside (change : World → World)

namespace Workspace

/-- The warnings that have not been handed out. -/
def pending (ws : Workspace) : List Notice := ws.drainWarnings.1

/-- The warnings of the environment that is open under a name. -/
def warningsOf (ws : Workspace) (name : String) : List Notice :=
  (ws.environment? name).elim [] (·.warnings)

/-- Every environment is open under its own name, and no two under one. -/
structure Regular (ws : Workspace) : Prop where
  nodup : (Table.keys ws.environments).Nodup
  named : ∀ entry ∈ ws.environments, entry.2.name = entry.1

end Workspace

namespace WorkspaceCall

/-- What is called and what is around it. -/
abbrev State := Workspace × World

def run (s : State) : WorkspaceCall → State
  | .open config => (s.1.open s.2 config).2
  | .insert e => (s.1.insert e, s.2)
  | .close name => ((s.1.close name).2, s.2)
  | .environment name call => match s.1.environment? name with
    | none => s
    | some e =>
      let (e, w) := call.run e s.2
      (s.1.insert e, w)
  | .warnings => (s.1.drainWarnings.2, s.2)
  | .outside change => (s.1, change s.2)

/-- The warnings that are collected in a call; an environment that is inserted brings its own. -/
def collected (s : State) : WorkspaceCall → List Notice
  | .open config => match Environment.open s.2 config with
    | .ok _ => []
    | .error n => [n]
  | .insert e => e.warnings
  | .environment name call => match s.1.environment? name with
    | none => []
    | some e => call.collected e s.2
  | .close _ | .warnings | .outside _ => []

/-- The warnings that a call hands out. -/
def handedOut (s : State) : WorkspaceCall → List Notice
  | .warnings => s.1.drainWarnings.1
  | _ => []

/-- The warnings of an environment in whose place a call puts another. -/
def replaced (s : State) : WorkspaceCall → List Notice
  | .open config => match Environment.open s.2 config with
    | .ok _ => s.1.warningsOf config.name
    | .error _ => []
  | .insert e => s.1.warningsOf e.name
  | _ => []

def runAll (s : State) (calls : List WorkspaceCall) : State := calls.foldl run s

/-- What a run of calls comes to, call by call. -/
def gather (what : State → WorkspaceCall → List Notice) : State → List WorkspaceCall → List Notice
  | _, [] => []
  | s, c :: calls => what s c ++ gather what (c.run s) calls

/-- All warnings that a run hands out, with those of one last request for them. -/
def delivered (s : State) (calls : List WorkspaceCall) : List Notice :=
  gather handedOut s calls ++ (runAll s calls).1.pending

end WorkspaceCall

namespace Workspace

variable {ws : Workspace}

theorem Regular.empty : Workspace.empty.Regular := ⟨List.nodup_nil, fun _ h => absurd h nofun⟩

theorem Regular.insert (h : ws.Regular) (e : Environment) : (ws.insert e).Regular := by
  refine ⟨Table.nodup_keys_set h.nodup e.name e, fun entry hm => ?_⟩
  rcases Table.mem_of_mem_set hm with rfl | hm
  · rfl
  · exact h.named entry hm

theorem Regular.close (h : ws.Regular) (name : String) : (ws.close name).2.Regular := by
  unfold Workspace.close
  split
  · exact h
  · exact ⟨Table.nodup_keys_erase h.nodup name, fun entry hm =>
      h.named entry (Table.mem_of_mem_erase hm)⟩

theorem Regular.drainWarnings (h : ws.Regular) : ws.drainWarnings.2.Regular := by
  refine ⟨(congrArg List.Nodup List.map_map).mpr h.nodup, fun entry hm => ?_⟩
  obtain ⟨entry, hm', rfl⟩ := List.mem_map.mp hm
  exact h.named entry hm'

theorem Regular.name_eq (h : ws.Regular) {name : String} {e : Environment}
    (he : ws.environment? name = some e) : e.name = name :=
  h.named _ (Table.mem_of_get? he)

/-- What an inserted environment adds, and what is lost with the one that it replaces. -/
theorem pending_insert (ws : Workspace) (e : Environment) :
    ((ws.insert e).pending ++ ws.warningsOf e.name).Perm (ws.pending ++ e.warnings) := by
  have hset := Table.flatMap_set_perm ws.environments e.name e (·.warnings)
  simp only [pending, drainWarnings, insert, List.append_assoc]
  exact hset.append_left ws.warnings

/-- The warnings of a closed environment are not lost. -/
theorem pending_close (h : ws.Regular) (name : String) :
    (ws.close name).2.pending.Perm ws.pending := by
  have herase := Table.flatMap_erase_perm h.nodup name Environment.warnings
  unfold close
  split
  · exact .refl _
  next e he =>
    rw [he] at herase
    simp only [pending, drainWarnings, List.append_assoc]
    exact (List.perm_append_comm.trans herase).append_left ws.warnings

theorem pending_drainWarnings (ws : Workspace) : ws.drainWarnings.2.pending = [] := by
  refine List.flatMap_eq_nil_iff.mpr fun entry hm => ?_
  obtain ⟨entry, -, rfl⟩ := List.mem_map.mp hm
  rfl

end Workspace

namespace WorkspaceCall

variable {s : State}

theorem regular_run (h : s.1.Regular) (c : WorkspaceCall) : (c.run s).1.Regular := by
  cases c with
  | «open» config =>
    unfold run Workspace.open
    dsimp only
    split
    · exact ⟨h.nodup, h.named⟩
    · exact h.insert _
  | insert e => exact h.insert e
  | close name => exact h.close name
  | environment name call =>
    unfold run
    dsimp only
    split
    · exact h
    · exact h.insert _
  | warnings => exact h.drainWarnings
  | outside change => exact h

theorem collected_open (config : EnvironmentConfig) :
    (s.1.pending ++ collected s (.open config)).Perm
      (replaced s (.open config) ++ (run s (.open config)).1.pending) := by
  unfold collected replaced run Workspace.open
  dsimp only
  cases ho : Environment.open s.2 config with
  | error n =>
    simp only [Workspace.pending, Workspace.drainWarnings, List.append_assoc, List.nil_append]
    exact List.perm_append_comm.append_left s.1.warnings
  | ok r =>
    obtain ⟨hname, hnone⟩ := Environment.of_open ho
    have hins := s.1.pending_insert r.1
    rw [hname, hnone] at hins
    exact hins.symm.trans List.perm_append_comm

theorem collected_environment (h : s.1.Regular) (name : String) (call : EnvironmentCall) :
    (s.1.pending ++ collected s (.environment name call)).Perm
      (run s (.environment name call)).1.pending := by
  unfold collected run
  dsimp only
  cases he : s.1.environment? name with
  | none => exact .of_eq (List.append_nil _)
  | some e =>
    obtain ⟨hconfig, hwarnings⟩ := Environment.warned_run (e := e) (w := s.2) call
    have hname : (call.run e s.2).1.name = name :=
      (congrArg EnvironmentConfig.name hconfig).trans (h.name_eq he)
    have hold : s.1.warningsOf name = e.warnings := by
      rw [Workspace.warningsOf, he]
      rfl
    have hins := s.1.pending_insert (call.run e s.2).1
    rw [hname, hold, hwarnings] at hins
    dsimp only
    rw [List.perm_iff_count] at hins ⊢
    intro n
    have hn := hins n
    simp only [List.count_append] at hn ⊢
    omega

/-- Where what is collected in a call goes. -/
theorem collected_run (h : s.1.Regular) (c : WorkspaceCall) :
    (s.1.pending ++ c.collected s).Perm
      (c.handedOut s ++ c.replaced s ++ (c.run s).1.pending) := by
  cases c with
  | «open» config => exact collected_open config
  | insert e => exact (s.1.pending_insert e).symm.trans List.perm_append_comm
  | close name =>
    change (s.1.pending ++ []).Perm (s.1.close name).2.pending
    rw [List.append_nil]
    exact (Workspace.pending_close h name).symm
  | environment name call => exact collected_environment h name call
  | warnings =>
    change (s.1.pending ++ []).Perm (s.1.pending ++ [] ++ s.1.drainWarnings.2.pending)
    rw [Workspace.pending_drainWarnings, List.append_nil, List.append_nil]
  | outside change =>
    change (s.1.pending ++ []).Perm s.1.pending
    rw [List.append_nil]

theorem collected_runAll (h : s.1.Regular) (calls : List WorkspaceCall) :
    (s.1.pending ++ gather collected s calls).Perm
      (delivered s calls ++ gather replaced s calls) := by
  induction calls generalizing s with
  | nil => exact .refl _
  | cons c calls ih =>
    have hstep := collected_run h c
    have hrest := ih (regular_run h c)
    have hrun : runAll s (c :: calls) = runAll (c.run s) calls := rfl
    rw [delivered] at hrest ⊢
    -- the parts stand in another order on either side, so each warning is counted
    rw [hrun, List.perm_iff_count]
    rw [List.perm_iff_count] at hstep hrest
    intro n
    have hstep := hstep n
    have hrest := hrest n
    simp only [gather, List.count_append] at hstep hrest ⊢
    omega

theorem gather_eq_nil_iff (what : State → WorkspaceCall → List Notice) (s : State)
    (calls : List WorkspaceCall) : gather what s calls = [] ↔
      ∀ pre c, pre ++ [c] <+: calls → what (runAll s pre) c = [] := by
  induction calls generalizing s with
  | nil => simp [gather]
  | cons c calls ih =>
    rw [gather, List.append_eq_nil_iff, ih]
    constructor
    · rintro ⟨hc, hrest⟩ pre d hp
      cases pre with
      | nil =>
        obtain ⟨rfl, -⟩ := List.cons_prefix_cons.mp hp
        exact hc
      | cons c' pre =>
        obtain ⟨rfl, hp'⟩ := List.cons_prefix_cons.mp hp
        exact hrest pre d hp'
    · intro hall
      exact ⟨hall [] c (by simp), fun pre d hp =>
        hall (c :: pre) d (List.cons_prefix_cons.mpr ⟨rfl, hp⟩)⟩

/-- What has been handed out after a run of a new workspace and one last request is what has been
collected, but for what was lost with environments that gave way to others. So each warning is handed
out exactly once if and only if no environment that still has warnings gives way to another. -/
theorem warnings_delivered (w : World) (calls : List WorkspaceCall) :
    let s : State := (.empty, w)
    (gather collected s calls).Perm (delivered s calls ++ gather replaced s calls) ∧
      ((delivered s calls).Perm (gather collected s calls) ↔
        ∀ pre c, pre ++ [c] <+: calls → c.replaced (runAll s pre) = []) := by
  intro s
  have hall : (gather collected s calls).Perm (delivered s calls ++ gather replaced s calls) :=
    collected_runAll (s := s) .empty calls
  refine ⟨hall, ?_⟩
  rw [← gather_eq_nil_iff replaced s calls]
  constructor
  · intro hperm
    have hlen := (hperm.trans hall).length_eq
    rw [List.length_append] at hlen
    exact List.length_eq_zero_iff.mp (by omega)
  · intro hnone
    rw [hnone, List.append_nil] at hall
    exact hall.symm

/-- A tree in which the facts of the node `n` are no object. -/
def unreadable : World :=
  .ofFiles ⟨[(["production"], .directory 0), (["production", "facts"], .directory 0),
    (["production", "facts", "n.json"], .file (.text "[1, 2]") 0)], [], 0⟩ ⟨fun _ => 0, 0⟩

/-- An environment is opened twice, and between that it is asked for a node. -/
def reopened : List WorkspaceCall :=
  [.open (.standard "production" "production"), .environment "production" (.node "n"),
    .open (.standard "production" "production")]

/-- The warning about the facts of the node is lost when the environment is opened anew. -/
theorem not_every_warning_delivered : ¬∀ (w : World) (calls : List WorkspaceCall),
    (delivered (.empty, w) calls).Perm (gather collected (.empty, w) calls) := by
  intro hall
  have hlen := (hall unreadable reopened).length_eq
  exact absurd hlen (by decide +kernel)

end WorkspaceCall
end Cascade
