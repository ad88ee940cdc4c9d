import Cascade.Proofs.Binding
import Cascade.Proofs.Node.Operations
import Cascade.Proofs.Node.Requests
/-!
What a node is bound to. A write changes the copy that a level keeps, and no operation but those that
bind the hierarchy anew changes more of it. So at any time the levels of a node, their paths and its
facts are what a hierarchy was once bound to.
-/
namespace Cascade

/-- A level but for the copy of its file. -/
def CompiledLevel.outline (l : CompiledLevel) : Level × String × Option KeyPaths :=
  (l.level, l.path, l.keys)

abbrev Compiled.Outline := Facts × List (Level × String × Option KeyPaths)

/-- A bound hierarchy but for the copies of the files. -/
def Compiled.outline (c : Compiled) : Compiled.Outline := (c.facts, c.levels.map (·.outline))

theorem Compiled.outline_putLevel {c : Compiled} {n : Nat} {l : CompiledLevel}
    (h : c.outline.2[n]? = some l.outline) : (c.putLevel n l).outline = c.outline :=
  Prod.ext rfl (map_set_eq_self h)

namespace Storing

variable {outline : Compiled.Outline} {l : CompiledLevel} {α : Type}

/-- The hierarchy is as it was but for the copies of the files. -/
abbrev Outlined (outline : Compiled.Outline) (s : Store) : Prop := s.compiled.outline = outline

theorem Looks.maintains {x : Storing α} (hx : Looks x) {P : Store → Prop} : Maintains P x :=
  fun s h => (hx s).symm ▸ h

theorem maintains_onFiles (path : String) (x : Filing α) :
    Maintains (Outlined outline) (onFiles path x) := fun _ h => h

/-- A level that is looked up has the outline that is to be kept in its place. -/
theorem maintains_level {n : Nat} {f : CompiledLevel → Storing α}
    (hf : ∀ l, outline.2[n]? = some l.outline → Maintains (Outlined outline) (f l)) :
    Maintains (Outlined outline) (level n >>= f) := by
  intro s h
  rw [run_bind]
  rcases hrun : (level n).run s with ⟨e | l, s'⟩
  · have hs : s' = s := (congrArg Prod.snd hrun).symm
    exact hs ▸ h
  · obtain ⟨hl, rfl⟩ := level_eq_ok hrun
    refine hf l ?_ _ h
    rw [← h]
    change (s'.compiled.levels.map (·.outline))[n]? = _
    rw [List.getElem?_map, hl]
    rfl

theorem maintains_putLevel {n : Nat} (hl : outline.2[n]? = some l.outline) :
    Maintains (Outlined outline) (putLevel n l) := .modify fun s h => by
  change (s.compiled.putLevel n l).outline = outline
  rw [Compiled.outline_putLevel (h.symm ▸ hl)]
  exact h

variable (d : Disk)

theorem maintains_save (f : DataFile) : Maintains (Outlined outline) (save d f) := by
  unfold save makeParent
  refine .bind ?_ fun _ => maintains_onFiles _ _
  split
  · exact .pure _
  · exact maintains_onFiles _ _

theorem maintains_assignRaw (n : Nat) (key : String) (v : Value) :
    Maintains (Outlined outline) (assignRaw d n key v) :=
  maintains_level fun l hl => .bind (looks_open d l.path).maintains fun _ =>
    .bind (maintains_save d _) fun _ => maintains_putLevel (l := { l with file := _ }) hl

theorem maintains_storedForm (l : CompiledLevel) (v : Value) :
    Maintains (Outlined outline) (storedForm d l v) := by
  unfold storedForm
  split
  · exact .pure _
  · refine .bind (looks_loadKey d _).maintains fun key => .look fun s hs => ?_
    refine .bind (fun _ h => h) fun r => ?_
    exact .bind (fun _ _ => hs) fun _ => .pure _

theorem maintains_assign (n : Nat) (key : String) (v : Value) :
    Maintains (Outlined outline) (assign d n key v) :=
  maintains_level fun l _ => .bind (maintains_storedForm d l v) fun _ =>
    maintains_assignRaw d n key _

theorem maintains_erase (n : Nat) (key : String) :
    Maintains (Outlined outline) (erase d n key) := by
  refine maintains_level fun l hl => .bind (looks_open d l.path).maintains fun old => ?_
  have hput : ∀ file, Maintains (Outlined outline) (putLevel n { l with file := file }) :=
    fun file => maintains_putLevel (l := { l with file := file }) hl
  split
  · exact .bind (hput none) fun _ => .pure _
  · split
    · exact .bind (hput _) fun _ => .pure _
    · exact .bind (maintains_save d _) fun _ => .bind (hput _) fun _ => .pure _

end Storing

abbrev Node.Outline := Identity × Facts × Compiled.Outline

/-- What stays of a node until its hierarchy is bound anew. -/
def Node.outline (n : Node) : Node.Outline := (n.identity, n.facts, n.compiled.outline)

section

variable {outline : Node.Outline} {ε α : Type}

abbrev Machine.Outlined (outline : Node.Outline) (m : Machine Host) : Prop :=
  m.host.node.outline = outline

open Machine (Outlined)

/-- Requests neither bind the hierarchy anew nor write to it. -/
theorem Spares.maintains {own : Set Part} {x : ExceptT ε (StateM (Machine Host)) α}
    (hx : Spares Host.course own x) : Maintains (Outlined outline) x := by
  intro m h
  have hfurther := (hx m).host.onward
  rw [← h]
  exact Prod.ext hfurther.alike.identity
    (Prod.ext hfurther.alike.facts (congrArg Compiled.outline hfurther.compiled))

theorem Node.maintains_markPublic (i : Nat) : Maintains (Outlined outline) (Node.markPublic i) :=
  .modify fun m h => by
    rw [Machine.Outlined, Machine.host_updateInstance]
    exact h

theorem Node.maintains_instanceAt (i : Nat) : Maintains (Outlined outline) (Node.instanceAt i) := by
  refine .look fun m _ => ?_
  split
  · exact .pure _
  · exact .throw _

theorem Node.maintains_dumpClass (depth : Nat) (name : String) :
    Maintains (Outlined outline) (Node.dumpClass (Node.resolver depth) name) :=
  .bind ((Node.resolver_spares depth).resolveClass name).maintains fun _ =>
    .bind (maintains_markPublic _) fun _ => .bind (maintains_instanceAt _) fun _ =>
      .look fun _ _ => .pure _

theorem Node.maintains_dumpResource (depth : Nat) (typeName title : String) :
    Maintains (Outlined outline) (Node.dumpResource (Node.resolver depth) typeName title) :=
  .bind (Node.spares_resolveResource (Node.resolver_spares depth) typeName title).maintains fun _ =>
    .bind (maintains_markPublic _) fun _ => .bind (maintains_instanceAt _) fun _ => .pure _

theorem Request.outline_run (depth : Nat) (q : Request) (m : Machine Host) :
    (q.run (Node.resolver depth) m).2.host.node.outline = m.host.node.outline := by
  cases q with
  | resolveClass name =>
    exact ((Node.resolver_spares depth).resolveClass name).maintains m rfl
  | resolveResource typeName title =>
    exact (Node.spares_resolveResource (Node.resolver_spares depth) typeName title).maintains m rfl
  | resolveFunction name =>
    exact ((Node.resolver_spares depth).resolveFunction name).maintains m rfl
  | invalidateClass name => rfl
  | invalidateResource typeName title => rfl
  | invalidateFunction name => rfl

namespace Writing

theorem maintains_onHierarchy {x : Storing α} (hx : Maintains (Storing.Outlined outline.2.2) x) :
    Maintains (Outlined outline) (onHierarchy x) := by
  intro m h
  obtain rfl := h
  exact Prod.ext rfl (Prod.ext rfl (hx (stored m) rfl))

theorem maintains_ofExcept (r : Except NodeError α) : Maintains (Outlined outline) (ofExcept r) :=
  fun _ h => h

theorem maintains_registerSource (kind : SourceKind) (name : String) (level : Nat) :
    Maintains (Outlined outline) (onNode (Node.registerSource kind name level)) :=
  .modify fun _ h => h

theorem maintains_forgetSource (kind : SourceKind) (name : String) :
    Maintains (Outlined outline) (onNode (Node.forgetSource kind name)) := .modify fun _ h => h

theorem maintains_invalidateClass (name : String) :
    Maintains (Outlined outline)
      (modify (·.invalidateClass name) : Writing PUnit) := .modify fun _ h => h

variable (d : Disk)

theorem maintains_assignClass (className : String) (level : Nat) :
    Maintains (Outlined outline) (assignClass d className level) := by
  refine .look fun m _ => .bind (maintains_ofExcept _) fun names => ?_
  split
  · exact .pure _
  · exact .bind (maintains_onHierarchy (Storing.maintains_assignRaw d _ _ _)) fun _ =>
      maintains_registerSource _ _ _

theorem maintains_removeClass (className : String) (level : Nat) :
    Maintains (Outlined outline) (removeClass d className level) := by
  refine .look fun m _ => .bind (maintains_ofExcept _) fun names => ?_
  dsimp only
  split
  · exact .pure _
  · split
    · exact .bind (maintains_onHierarchy (Storing.maintains_erase d _ _)) fun _ =>
        .bind (maintains_forgetSource _ _) fun _ => .pure _
    · exact .bind (maintains_onHierarchy (Storing.maintains_assignRaw d _ _ _)) fun _ =>
        .bind (maintains_forgetSource _ _) fun _ => .pure _

theorem maintains_setProperty (className property : String) (v : Value) (level : Nat) :
    Maintains (Outlined outline) (setProperty d className property v level) :=
  .bind (maintains_onHierarchy (Storing.maintains_assign d _ _ _)) fun _ =>
    maintains_invalidateClass _

theorem maintains_removeProperty (className property : String) (level : Nat) :
    Maintains (Outlined outline) (removeProperty d className property level) :=
  .bind (maintains_onHierarchy (Storing.maintains_erase d _ _)) fun _ =>
    .bind (maintains_forgetSource _ _) fun _ =>
      .bind (maintains_invalidateClass _) fun _ => .pure _

end Writing

/-- An operation that does not bind the hierarchy of a node keeps what the node is bound to. -/
theorem NodeOperation.outline_run (d : Disk) (depth : Nat) {o : NodeOperation} (ho : o.binds = false)
    (m : Machine Host) : (o.run d depth m).2.host.node.outline = m.host.node.outline := by
  cases o with
  | look => rfl
  | request q => exact q.outline_run depth m
  | dumpClass name => exact Node.maintains_dumpClass depth name m rfl
  | dumpResource typeName title => exact Node.maintains_dumpResource depth typeName title m rfl
  | includedClasses =>
    obtain ⟨sources, hsources⟩ := m.host.node.exists_of_includedClasses
    change m.host.node.includedClasses.2.outline = _
    rw [hsources]
    rfl
  | registerSource kind name level => rfl
  | assignClass name level => exact Writing.maintains_assignClass d name level m rfl
  | removeClass name level => exact Writing.maintains_removeClass d name level m rfl
  | setProperty name property v level =>
    exact Writing.maintains_setProperty d name property v level m rfl
  | removeProperty name property level =>
    exact Writing.maintains_removeProperty d name property level m rfl
  | assign level key v =>
    exact Writing.maintains_onHierarchy (Storing.maintains_assign d level key v) m rfl
  | assignRaw level key v =>
    exact Writing.maintains_onHierarchy (Storing.maintains_assignRaw d level key v) m rfl
  | erase level key => exact Writing.maintains_onHierarchy (Storing.maintains_erase d level key) m rfl
  | rebind r => exact absurd ho (by simp [NodeOperation.binds])
  | invalidateAll => exact absurd ho (by simp [NodeOperation.binds])
  | outside change => rfl

end

/-- Whether the facts that an operation brings are a map. -/
def NodeOperation.isProper : NodeOperation → Bool
  | rebind (.facts f) => decide (Table.keys f).Nodup
  | _ => true

/-- Operations, one after another. -/
def NodeOperation.runAll (d : Disk) (depth : Nat) (ops : List NodeOperation) (m : Machine Host) :
    Machine Host :=
  ops.foldl (fun m o => (o.run d depth m).2) m

theorem NodeOperation.outline_runAll (d : Disk) (depth : Nat) {ops : List NodeOperation}
    (hops : ∀ o ∈ ops, o.binds = false) (m : Machine Host) :
    (runAll d depth ops m).host.node.outline = m.host.node.outline := by
  induction ops generalizing m with
  | nil => rfl
  | cons o ops ih =>
    have hrest := ih (fun o' ho' => hops o' (List.mem_cons_of_mem o ho')) (o.run d depth m).2
    exact hrest.trans (outline_run d depth (hops o List.mem_cons_self) m)

namespace Node

/-- A node that has been bound: its facts are a map, and its levels, their paths and its effective
facts are what a hierarchy came to that was bound to its identity and to a map of facts. -/
structure Bound (n : Node) : Prop where
  facts : (Table.keys n.facts).Nodup
  compiled : ∃ files h facts c, (Table.keys facts).Nodup ∧
    Compiled.compile files h facts n.identity.facts = .ok c ∧ c.outline = n.compiled.outline

namespace Bound

variable {n n' : Node} {m : Machine Host} {d : Disk} {depth : Nat}

theorem of_outline (hn : n.Bound) (h : n'.outline = n.outline) : n'.Bound := by
  obtain ⟨hidentity, hrest⟩ := Prod.mk.inj h
  obtain ⟨hfacts, hcompiled⟩ := Prod.mk.inj hrest
  obtain ⟨files, h, facts, c, hf, hc, ho⟩ := hn.compiled
  exact ⟨hfacts ▸ hn.facts, files, h, facts, c, hf, hidentity ▸ hc, ho.trans hcompiled.symm⟩

theorem create {files : Files} {certname : String} {facts : Facts} {hierarchy : Hierarchy}
    {loader : Loader} (h : Node.create files certname facts hierarchy loader = .ok n)
    (hf : (Table.keys facts).Nodup) : n.Bound := by
  obtain ⟨c, hc, rfl⟩ := exists_of_create h
  exact ⟨hf, files, hierarchy, facts, c, hf, hc, rfl⟩

/-- A node that cannot be bound anew stays bound to what it was bound to. -/
theorem invalidateAll (h : m.host.node.Bound) : m.invalidateAll.2.host.node.Bound := by
  cases hn : m.host.node.invalidateAll m.host.world.files with
  | error e =>
    rw [Machine.invalidateAll_of_error hn]
    exact h
  | ok node =>
    rw [Machine.invalidateAll_of_ok hn]
    obtain ⟨c, hc, hnode⟩ := bind_eq_ok.mp hn
    obtain rfl := Except.ok.inj hnode
    exact ⟨h.facts, m.host.world.files, m.host.node.hierarchy, m.host.node.facts, c, h.facts, hc,
      rfl⟩

theorem put {r : Rebinding} (h : n.Bound) (hr : (NodeOperation.rebind r).isProper = true) :
    (r.put n).Bound := by
  cases r with
  | facts f => exact ⟨of_decide_eq_true hr, h.compiled⟩
  | hierarchy hierarchy => exact ⟨h.facts, h.compiled⟩

theorem run (h : m.host.node.Bound) {o : NodeOperation} (ho : o.isProper = true) :
    (o.run d depth m).2.host.node.Bound := by
  cases hb : o.binds with
  | false => exact h.of_outline (o.outline_run d depth hb m)
  | true =>
    cases o with
    | rebind r =>
      have hput : (m.withNode (r.put m.host.node)).host.node.Bound := h.put ho
      change (m.rebind r).2.host.node.Bound
      rw [Machine.rebind_eq]
      exact hput.invalidateAll
    | invalidateAll => exact h.invalidateAll
    | _ => exact absurd hb Bool.false_ne_true

theorem runAll (h : m.host.node.Bound) {ops : List NodeOperation}
    (hops : ∀ o ∈ ops, o.isProper = true) :
    (NodeOperation.runAll d depth ops m).host.node.Bound := by
  induction ops generalizing m with
  | nil => exact h
  | cons o ops ih =>
    exact ih (h.run (hops o List.mem_cons_self)) fun o' ho' => hops o' (List.mem_cons_of_mem o ho')

/-- The effective facts of a node are a map. -/
theorem nodup_effectiveFacts (h : n.Bound) : (Table.keys n.effectiveFacts).Nodup := by
  obtain ⟨files, hierarchy, facts, c, hf, hc, ho⟩ := h.compiled
  have hsame : c.facts = n.effectiveFacts := congrArg Prod.fst ho
  rw [← hsame]
  obtain ⟨levels, -, ⟨-, rfl⟩ | ⟨-, hmerge, -⟩⟩ := Compiled.compile_eq_ok.mp hc
  · exact hf
  · rw [hmerge]
    exact Table.nodup_keys_merge hf

end Bound

end Node

end Cascade
