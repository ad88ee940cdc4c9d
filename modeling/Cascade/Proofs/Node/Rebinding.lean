import Cascade.Environment.Basic
import Cascade.Proofs.Node.Operations
/-!
What becomes of a node whose facts or whose hierarchy are replaced. If the hierarchy can be bound,
the node goes on like one that has just been made. If it cannot, then what was to be replaced has been,
and nothing shows of it until the hierarchy is bound once more. An environment gives its nodes a new
hierarchy one after another, and stops at the first that cannot be bound to it.
-/
namespace Cascade

variable {d : Disk} {depth : Nat} {m m' : Machine Host} {r : Rebinding}

namespace Rebinding

theorem identity_put (r : Rebinding) (n : Node) : (r.put n).identity = n.identity := by
  cases r <;> rfl

theorem regular_put (r : Rebinding) {n : Node} (h : n.Regular) : (r.put n).Regular := by
  cases r <;> exact ⟨h.classes, h.resources, h.functions⟩

end Rebinding

namespace Machine

/-- The machine with another node in the place of its own: one that is made over the current files,
with what is to be replaced. -/
def remade (m : Machine Host) (r : Rebinding) : Except HierarchyError (Machine Host) :=
  let n := r.put m.host.node
  (Node.create m.host.world.files n.identity.certname n.facts n.hierarchy n.loader).map fun node =>
    m.withNode { node with classListKey := n.classListKey }

/-- What a node comes to be bound to when something is replaced, if it can be. -/
def compileWith (m : Machine Host) (r : Rebinding) : Except HierarchyError Compiled :=
  let n := r.put m.host.node
  Compiled.compile m.host.world.files n.hierarchy n.facts n.identity.facts

theorem rebind_of_error {e : HierarchyError} (h : m.compileWith r = .error e) :
    m.rebind r = (.error e, m.withNode (r.put m.host.node)) := by
  have hnode : (r.put m.host.node).invalidateAll m.host.world.files = .error e :=
    congrArg (· >>= _) h
  rw [rebind_eq]
  exact invalidateAll_of_error (m := m.withNode (r.put m.host.node)) hnode

theorem rebind_of_ok {c : Compiled} (h : m.compileWith r = .ok c) :
    let n := r.put m.host.node
    m.rebind r = (.ok (), m.withNode { n with
      compiled := c, classes := n.classes.clear, resources := n.resources.clear
      functions := n.functions.clear, sources := [] }) := by
  have hnode : (r.put m.host.node).invalidateAll m.host.world.files = .ok _ :=
    congrArg (· >>= _) h
  rw [rebind_eq]
  exact invalidateAll_of_ok (m := m.withNode (r.put m.host.node)) hnode

/-- A node can be made again if it can be bound. -/
theorem remade_eq (h : Identity.ofCertname m.host.node.identity.certname = m.host.node.identity)
    (r : Rebinding) : let n := r.put m.host.node
    m.remade r = (m.compileWith r).map fun compiled => m.withNode { n with
      compiled, classes := .empty, resources := .empty, functions := .empty, sources := [] } := by
  rw [← r.identity_put] at h
  unfold remade Node.create compileWith
  dsimp only
  rw [h]
  cases Compiled.compile m.host.world.files (r.put m.host.node).hierarchy
    (r.put m.host.node).facts (r.put m.host.node).identity.facts <;> rfl

end Machine

namespace Rebinding

/-- What is bound is what a new node would be bound to, and it goes on like that one. -/
theorem replies_of_ok (hm : m.Reached d depth) (h : m.rebind r = (.ok (), m')) :
    ∃ fresh, m.remade r = .ok fresh ∧ ∀ ops,
      NodeOperation.replies d depth ops m' = NodeOperation.replies d depth ops fresh := by
  obtain ⟨hregular, hidentity⟩ := hm.regular
  have hput := r.regular_put hregular
  rw [Machine.remade_eq hidentity]
  cases hc : m.compileWith r with
  | error e =>
    rw [Machine.rebind_of_error hc] at h
    exact absurd (Prod.mk.inj h).1 (by simp)
  | ok compiled =>
    rw [Machine.rebind_of_ok hc] at h
    obtain ⟨-, rfl⟩ := Prod.mk.inj h
    let fresh := m.withNode { r.put m.host.node with
      compiled, classes := .empty, resources := .empty, functions := .empty, sources := [] }
    have hfresh : (NodeMask.behind (r.put m.host.node) hput).mask.Good fresh.host :=
      ⟨rfl, .empty, .empty, .empty⟩
    refine ⟨fresh, rfl, fun ops => ?_⟩
    rw [hput.classes.clear_eq, hput.resources.clear_eq, hput.functions.clear_eq]
    exact NodeOperation.replies_behind (h := hput) (m := fresh) ops hfresh

/-- Whether what is replaced is replaced once more before the hierarchy is bound in another way. -/
def Renewed (r : Rebinding) : List NodeOperation → Prop
  | [] => True
  | .rebind r' :: _ => r'.alike r = true
  | .invalidateAll :: _ => False
  | _ :: ops => r.Renewed ops

/-- Whether nothing is bound to the one that is not bound to the other. -/
def Redundant (r : Rebinding) (n : Node) : Prop :=
  match r with
  | facts f => f = n.facts
  | hierarchy h => ∀ files facts, Compiled.compile files h facts n.identity.facts =
      Compiled.compile files n.hierarchy facts n.identity.facts

/-- What hides that something has been replaced. -/
def cover (r : Rebinding) (n : Node) : NodeMask where
  facts := match r with
    | facts f => fun _ => f
    | hierarchy _ => id
  hierarchy := match r with
    | facts _ => id
    | hierarchy h => fun _ => h
  classes := []
  resources := []
  functions := []
  Fits _ h i := h = n.hierarchy ∧ i = n.identity
  classes_counted := .nil
  resources_counted := .nil
  functions_counted := .nil

theorem node_cover (r : Rebinding) (n n' : Node) : (r.cover n).node n' = r.put n' := by
  cases r <;> simp [NodeMask.node, cover, put]

theorem machine_cover (r : Rebinding) (n : Node) (m : Machine Host) :
    (r.cover n).mask.machine m = m.withNode (r.put m.host.node) :=
  congrArg m.withNode (r.node_cover n m.host.node)

/-- Nothing is left of what is replaced once more. -/
theorem put_put {r r' : Rebinding} (h : r'.alike r = true) (n : Node) :
    r'.put (r.put n) = r'.put n := by
  cases r <;> cases r' <;> first | rfl | exact absurd h (by simp [alike])

theorem run_renewed {r r' : Rebinding} (h : r'.alike r = true) (m : Machine Host) :
    (NodeOperation.rebind r').run d depth (m.withNode (r.put m.host.node)) =
      (NodeOperation.rebind r').run d depth m := by
  have hrun : (m.withNode (r.put m.host.node)).rebind r' = m.rebind r' := by
    rw [Machine.rebind_eq, Machine.rebind_eq]
    exact congrArg (fun n => (m.withNode n).invalidateAll) (put_put h m.host.node)
  simp only [NodeOperation.run, hrun]

theorem Renewed.cases {o : NodeOperation} {ops : List NodeOperation} (h : r.Renewed (o :: ops)) :
    (∃ r', o = .rebind r' ∧ r'.alike r = true) ∨ o.binds = false ∧ r.Renewed ops := by
  cases o with
  | rebind r' => exact .inl ⟨r', rfl, h⟩
  | invalidateAll => exact h.elim
  | _ => exact .inr ⟨rfl, h⟩

/-- Nothing shows of what was replaced until the hierarchy is bound to it. -/
theorem replies_of_renewed {n : Node} {ops : List NodeOperation} (h : r.Renewed ops)
    (hm : (r.cover n).mask.Good m.host) :
    NodeOperation.replies d depth ops ((r.cover n).mask.machine m) =
      NodeOperation.replies d depth ops m := by
  induction ops generalizing m with
  | nil => rfl
  | cons o ops ih =>
    rcases h.cases with ⟨r', rfl, halike⟩ | ⟨hbinds, h⟩
    · rw [machine_cover, NodeOperation.replies, NodeOperation.replies, run_renewed halike]
    · obtain ⟨hrun, hgood⟩ := NodeOperation.run_machine d depth hm
        (NodeMask.allows_of_not_binds hbinds)
      rw [NodeOperation.replies, NodeOperation.replies, hrun, ih h hgood]

/-- Another hierarchy never shows if always the same is bound to it. -/
theorem replies_of_redundant {h : Hierarchy} {n : Node} (hr : (hierarchy h).Redundant n)
    (ops : List NodeOperation) (hm : ((hierarchy h).cover n).mask.Good m.host) :
    NodeOperation.replies d depth ops (((hierarchy h).cover n).mask.machine m) =
      NodeOperation.replies d depth ops m := by
  induction ops generalizing m with
  | nil => rfl
  | cons o ops ih =>
    -- The hierarchy and the identity are those of the start, whatever the operations before this one.
    obtain ⟨hhierarchy, hidentity⟩ := hm.1
    have hbinds : ∀ facts, ((hierarchy h).cover n).Binds { m.host.node with facts := facts }
        m.host.world.files := by
      intro facts
      change Compiled.compile m.host.world.files h facts m.host.node.identity.facts =
        Compiled.compile m.host.world.files m.host.node.hierarchy facts m.host.node.identity.facts
      rw [hhierarchy, hidentity]
      exact hr _ _
    have hstep : ((hierarchy h).cover n).Allows m o →
        NodeOperation.replies d depth (o :: ops) (((hierarchy h).cover n).mask.machine m) =
          NodeOperation.replies d depth (o :: ops) m := by
      intro ho
      obtain ⟨hrun, hgood⟩ := NodeOperation.run_machine d depth hm ho
      rw [NodeOperation.replies, NodeOperation.replies, hrun, ih hgood]
    cases hb : o.binds with
    | false => exact hstep (NodeMask.allows_of_not_binds hb)
    | true =>
      cases o with
      | rebind r' =>
        cases r' with
        | facts f =>
          exact hstep ⟨rfl, ⟨hm.1, (facts f).regular_put hm.2⟩, hbinds f⟩
        | hierarchy h' =>
          rw [machine_cover, NodeOperation.replies, NodeOperation.replies, run_renewed rfl]
      | invalidateAll => exact hstep (hbinds m.host.node.facts)
      | _ => exact absurd hb (by simp [NodeOperation.binds])

/-- What a node is bound to next shows in what it replies. -/
theorem compileWith_eq {m₁ m₂ : Machine Host}
    (h : NodeOperation.replies d depth [.rebind r, .look] m₁ =
      NodeOperation.replies d depth [.rebind r, .look] m₂) :
    m₁.compileWith r = m₂.compileWith r := by
  obtain ⟨hbound, hrest⟩ := List.cons.inj h
  have hresult : (m₁.rebind r).1 = (m₂.rebind r).1 := NodeReply.bound.inj hbound
  have hview : (m₁.rebind r).2.host.node.view = (m₂.rebind r).2.host.node.view :=
    NodeReply.view.inj (List.cons.inj hrest).1
  have hcompiled := congrArg NodeView.compiled hview
  cases h₁ : m₁.compileWith r with
  | error e =>
    rw [Machine.rebind_of_error h₁] at hresult
    cases h₂ : m₂.compileWith r with
    | error e' =>
      rw [Machine.rebind_of_error h₂] at hresult
      exact congrArg _ (Except.error.inj hresult)
    | ok c =>
      rw [Machine.rebind_of_ok h₂] at hresult
      exact absurd hresult (by simp)
  | ok c =>
    rw [Machine.rebind_of_ok h₁] at hresult hcompiled
    cases h₂ : m₂.compileWith r with
    | error e =>
      rw [Machine.rebind_of_error h₂] at hresult
      exact absurd hresult (by simp)
    | ok c' =>
      rw [Machine.rebind_of_ok h₂] at hcompiled
      exact congrArg Except.ok hcompiled

/-- A hierarchy of no levels, to which facts are bound as they are. -/
def levelless : Hierarchy := ⟨5, "", none, []⟩

theorem compileWith_levelless (m : Machine Host) :
    m.compileWith (hierarchy levelless) = .ok ⟨[], m.host.node.facts⟩ := rfl

/-- What was to be replaced never shows if and only if nothing is bound to it but what would have been
bound without it. -/
theorem replies_eq_iff (hm : m.host.node.Regular) :
    (∀ ops, NodeOperation.replies d depth ops (m.withNode (r.put m.host.node)) =
      NodeOperation.replies d depth ops m) ↔ r.Redundant m.host.node := by
  constructor
  · intro h
    cases r with
    | facts f =>
      -- Without levels there is nothing to read that could fail, and the facts are all that is bound.
      have hsame := compileWith_eq (h [.rebind (hierarchy levelless), .look])
      rw [compileWith_levelless, compileWith_levelless] at hsame
      exact congrArg Compiled.facts (Except.ok.inj hsame)
    | hierarchy h' =>
      intro files f
      -- Facts leave the hierarchy where it is, so to replace them binds whichever there is.
      have hreplies := h [.outside fun w => { w with files }, .rebind (facts f), .look]
      have hsame := compileWith_eq (List.cons.inj hreplies).2
      exact hsame
  · intro h ops
    cases r with
    | facts f =>
      have hput : (facts f).put m.host.node = m.host.node := by
        rw [put, show f = m.host.node.facts from h]
      rw [hput]
      rfl
    | hierarchy h' =>
      rw [← machine_cover _ m.host.node]
      exact replies_of_redundant h ops ⟨⟨rfl, rfl⟩, hm⟩

end Rebinding

namespace Environment

/-- How a node is given a hierarchy that it cannot be bound to. -/
theorem setHierarchy_error {n node : Node} {files : Files} {h : Hierarchy} {e : HierarchyError}
    (hn : n.setHierarchy files h = (.error e, node)) : node = { n with hierarchy := h } := by
  unfold Node.setHierarchy at hn
  dsimp only at hn
  split at hn
  · exact absurd (Prod.mk.inj hn).1 (by simp)
  · exact (Prod.mk.inj hn).2.symm

/-- How a hierarchy comes to nodes up to one that cannot be bound to it: those before are bound, that
one has the hierarchy all the same, and those behind it are as they were. -/
def StopsAt (files : Files) (h : Hierarchy) (e : HierarchyError)
    (nodes nodes' : Table String OpenNode) : Prop :=
  ∃ before before' certname n after, nodes = before ++ (certname, n) :: after ∧
    nodes' = before' ++ (certname, { n with node := { n.node with hierarchy := h } }) :: after ∧
    List.Forall₂ (fun old new => ∃ node, old.2.node.setHierarchy files h = (.ok (), node) ∧
      new = (old.1, { old.2 with node := node })) before before' ∧
    (n.node.setHierarchy files h).1 = .error e

theorem stopsAt_of_rebind {files : Files} {h : Hierarchy} {e : HierarchyError}
    {nodes nodes' : Table String OpenNode} (hr : rebind files h nodes = (.error e, nodes')) :
    StopsAt files h e nodes nodes' := by
  induction nodes generalizing nodes' with
  | nil => exact absurd (Prod.mk.inj hr).1 (by simp)
  | cons entry rest ih =>
    obtain ⟨certname, n⟩ := entry
    unfold rebind at hr
    rcases hn : n.node.setHierarchy files h with ⟨e' | _, node⟩
    · rw [hn] at hr
      obtain ⟨he, rfl⟩ := Prod.mk.inj hr
      obtain rfl := setHierarchy_error hn
      exact ⟨[], [], certname, n, rest, rfl, rfl, .nil, by rw [hn]; exact he⟩
    · rcases hrest : rebind files h rest with ⟨result, rest'⟩
      rw [hn, hrest] at hr
      obtain ⟨rfl, rfl⟩ := Prod.mk.inj hr
      obtain ⟨before, before', c, n', after, rfl, rfl, hbefore, hfails⟩ := ih hrest
      exact ⟨(certname, n) :: before, (certname, { n with node }) :: before', c, n', after, rfl, rfl,
        .cons ⟨node, hn, rfl⟩ hbefore, hfails⟩

/-- An environment that fails to read its hierarchy again is as it was if the document could not be
read; otherwise it has the hierarchy, and so do its nodes up to one that cannot be bound to it. -/
theorem exists_of_reload {env env' : Environment} {files : Files} {e : EnvironmentError}
    (hr : env.reload files = (.error e, env')) :
    (∃ notice, loadHierarchy files env.config = .error notice ∧ e = .notice notice ∧ env' = env) ∨
    ∃ hierarchy cause nodes, loadHierarchy files env.config = .ok hierarchy ∧
      e = .node (.hierarchy cause) ∧ env' = { env with hierarchy, nodes } ∧
      StopsAt files hierarchy cause env.nodes nodes := by
  unfold reload at hr
  cases hl : loadHierarchy files env.config with
  | error notice =>
    rw [hl] at hr
    obtain ⟨he, rfl⟩ := Prod.mk.inj hr
    exact .inl ⟨notice, rfl, (Except.error.inj he).symm, rfl⟩
  | ok hierarchy =>
    rcases hn : rebind files hierarchy env.nodes with ⟨cause | _, nodes⟩
    · simp only [hl, hn] at hr
      obtain ⟨he, rfl⟩ := Prod.mk.inj hr
      exact .inr ⟨hierarchy, cause, nodes, rfl, (Except.error.inj he).symm, rfl, stopsAt_of_rebind hn⟩
    · simp only [hl, hn] at hr
      exact absurd (Prod.mk.inj hr).1 (by simp [Except.mapError])

end Environment

namespace Rebinding

/-- How far it is all or nothing to replace the facts or the hierarchy of a node. If they can be
bound, the node replies to everything like one that is made with them over the current files. If they
cannot, then it replies as if nothing had been replaced, as long as the same is replaced again before
the hierarchy is bound in another way; and to everything if and only if nothing is ever bound to the
new facts or hierarchy but what is bound to the old ones. An environment that fails to read its
hierarchy again has replaced its own and that of its nodes up to one that cannot be bound, unless the
document could not be read. -/
theorem rebind_shown (hm : m.Reached d depth) (r : Rebinding) :
    (∀ m', m.rebind r = (.ok (), m') → ∃ fresh, m.remade r = .ok fresh ∧ ∀ ops,
      NodeOperation.replies d depth ops m' = NodeOperation.replies d depth ops fresh) ∧
    (∀ e m', m.rebind r = (.error e, m') → m.remade r = .error e ∧
      (∀ ops, r.Renewed ops →
        NodeOperation.replies d depth ops m' = NodeOperation.replies d depth ops m) ∧
      ((∀ ops, NodeOperation.replies d depth ops m' = NodeOperation.replies d depth ops m) ↔
        r.Redundant m.host.node)) ∧
    ∀ (env env' : Environment) files e, env.reload files = (.error e, env') →
      (∃ notice, Environment.loadHierarchy files env.config = .error notice ∧ e = .notice notice ∧
        env' = env) ∨
      ∃ hierarchy cause nodes, Environment.loadHierarchy files env.config = .ok hierarchy ∧
        e = .node (.hierarchy cause) ∧ env' = { env with hierarchy, nodes } ∧
        Environment.StopsAt files hierarchy cause env.nodes nodes := by
  obtain ⟨hregular, hidentity⟩ := hm.regular
  refine ⟨fun m' => replies_of_ok hm, fun e m' h => ?_,
    fun env env' files e => Environment.exists_of_reload⟩
  cases hc : m.compileWith r with
  | ok compiled =>
    rw [Machine.rebind_of_ok hc] at h
    exact absurd (Prod.mk.inj h).1 (by simp)
  | error e' =>
    rw [Machine.rebind_of_error hc] at h
    obtain ⟨he, rfl⟩ := Prod.mk.inj h
    obtain rfl := Except.error.inj he
    refine ⟨?_, fun ops hops => ?_, replies_eq_iff hregular⟩
    · rw [Machine.remade_eq hidentity, hc]
      rfl
    · rw [← machine_cover _ m.host.node]
      exact replies_of_renewed hops ⟨⟨rfl, rfl⟩, hregular⟩

/-- Files among which a data file cannot be parsed. -/
def malformed : Files :=
  ⟨[(["data"], .directory 0), (["data", "common.yaml"], .file (.text "[") 0)], [], 0⟩

/-- A node that has just been made, before one of its data files has been spoilt. -/
def spoilt : Machine Host :=
  ((NodeOperation.outside fun w => { w with files := malformed }).run .plain Node.depth
    Machine.unwritten).2

theorem spoilt_reached : spoilt.Reached .plain Node.depth := by
  have hnode : Node.create Machine.unwritten.host.world.files "n0" []
      ⟨5, "data", none, [Fleet.commonLevel]⟩ .shelf = .ok (Fleet.newcomer "n0") := rfl
  have hmade : Machine.unwritten.Reached .plain Node.depth :=
    .create (m := Machine.unwritten) Node.standardClassListKey hnode
  exact .operate _ hmade

def newFacts : Rebinding := facts [("role", .string "db")]

/-- A flow sequence that never ends. -/
def spoiltError : HierarchyError :=
  .source "data/common.yaml" (.yaml (.unexpectedToken "node content"))

theorem spoilt_error : (spoilt.rebind newFacts).1 = .error spoiltError := by decide +kernel

/-- The file is mended, everything is forgotten, and then the node is looked at. -/
def mending : List NodeOperation :=
  [.outside fun w => { w with files := .empty [] 0 }, .invalidateAll, .look]

/-- The names of the facts that the last reply shows. -/
def factsShown (replies : List NodeReply) : Option (List String) :=
  match replies.getLast? with
  | some (.view v) => some v.compiled.facts.keys
  | _ => none

theorem spoilt_rebind_shown : spoilt.Reached .plain Node.depth ∧
    ∃ m', spoilt.rebind newFacts = (.error spoiltError, m') ∧
      spoilt.remade newFacts = .error spoiltError ∧
      NodeOperation.replies .plain Node.depth [.rebind (facts []), .invalidateAll, .look] m' =
        NodeOperation.replies .plain Node.depth [.rebind (facts []), .invalidateAll, .look] spoilt ∧
      ¬ ∀ ops, NodeOperation.replies .plain Node.depth ops m' =
        NodeOperation.replies .plain Node.depth ops spoilt := by
  have hrun : spoilt.rebind newFacts = (.error spoiltError, (spoilt.rebind newFacts).2) :=
    Prod.ext spoilt_error rfl
  obtain ⟨-, herror, -⟩ := rebind_shown spoilt_reached newFacts
  obtain ⟨hremade, hrenewed, hiff⟩ := herror _ _ hrun
  refine ⟨spoilt_reached, _, hrun, hremade, hrenewed _ rfl, fun h => ?_⟩
  have hsame : [("role", Value.string "db")] = ([] : Facts) := hiff.mp h
  exact absurd hsame (List.cons_ne_nil _ _)

/-- Facts that the node could not be bound to come up when its hierarchy is bound the next time. -/
theorem refused_facts_shown : spoilt.Reached .plain Node.depth ∧
    (∃ e, (spoilt.rebind newFacts).1 = .error e) ∧
    ¬ ∀ ops, NodeOperation.replies .plain Node.depth ops (spoilt.rebind newFacts).2 =
      NodeOperation.replies .plain Node.depth ops spoilt := by
  refine ⟨spoilt_reached, ⟨_, spoilt_error⟩, fun h => ?_⟩
  have hshown : factsShown (NodeOperation.replies .plain Node.depth mending
      (spoilt.rebind newFacts).2) = some ["role"] := by decide +kernel
  have hother : factsShown (NodeOperation.replies .plain Node.depth mending spoilt) = some [] := by
    decide +kernel
  rw [h mending, hother] at hshown
  exact absurd hshown (by simp)

end Rebinding
end Cascade
