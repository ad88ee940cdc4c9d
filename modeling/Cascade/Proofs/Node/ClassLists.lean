import Cascade.Node.ClassList
import Cascade.Proofs.Hierarchy
import Cascade.Proofs.Name
/-!
Nodes that share a data file, each with a copy of it. A change of the class list is made to the copy
of the node that makes it, and the whole list is written. So a change loses what another node has
written since the copy was made, unless it would make the same of the copy as of the file.
-/
namespace Cascade

/-- A change of a class list. -/
inductive ClassCall
  | assign (name : String)
  | remove (name : String)

namespace ClassCall

/-- The class that a change is about. -/
def name : ClassCall → String
  | assign name | remove name => name

/-- The level that the class is registered with after a change of this level. -/
def registered (level : Nat) : ClassCall → Option Nat
  | assign _ => some level
  | remove _ => none

/-- The classes after a change. -/
def apply : ClassCall → Set String → Set String
  | assign name, s => insert (Name.normalize name) s
  | remove name, s => s \ {Name.normalize name}

theorem apply_assign_eq_self {name : String} {s : Set String} :
    (assign name).apply s = s ↔ Name.normalize name ∈ s := Set.insert_eq_self

theorem apply_remove_eq_self {name : String} {s : Set String} :
    (remove name).apply s = s ↔ Name.normalize name ∉ s := by
  constructor
  · intro h hin
    rw [← h] at hin
    exact hin.2 rfl
  · exact Set.sdiff_singleton_eq_self

/-- A change made to a copy is right for the file: either there is nothing to do in both, or the
same comes of both. -/
def Fits (c : ClassCall) (copy file : Set String) : Prop :=
  (c.apply copy = copy → c.apply file = file) ∧ (c.apply copy ≠ copy → c.apply copy = c.apply file)

end ClassCall

/-- The classes that a value lists. -/
def classesIn (v : Option Value) : Set String :=
  {c | ∃ w, v = some w ∧ ∃ n ∈ Node.namesIn w, Name.normalize n = c}

theorem classesIn_some (v : Value) :
    classesIn (some v) = {c | ∃ n ∈ Node.namesIn v, Name.normalize n = c} := by
  simp [classesIn]

theorem namesIn_listOf (names : List String) : Node.namesIn (Node.listOf names) = names := by
  simp only [Node.listOf, Node.namesIn, List.filterMap_map]
  exact List.filterMap_some

theorem classesIn_listOf (names : List String) :
    classesIn (some (Node.listOf names)) = {c | ∃ n ∈ names, Name.normalize n = c} := by
  rw [classesIn_some, namesIn_listOf]

theorem Node.classesIn_of_namesAt {n : Node} {level : Nat} {names : List String} {l : CompiledLevel}
    (hl : n.compiled.levels[level]? = some l) (h : n.namesAt level = .ok names) :
    classesIn (l.get? n.classListKey) = {c | ∃ n ∈ names, Name.normalize n = c} := by
  unfold namesAt at h
  simp only [Compiled.getAt, Compiled.level_eq_ok hl, Bind.bind, Except.bind, pure, Except.pure,
    NodeError.liftM_ok] at h
  cases hv : l.get? n.classListKey with
  | none =>
    obtain rfl : [] = names := by simpa [hv] using h
    simp [classesIn]
  | some v =>
    rw [classesIn_some]
    cases v with
    | undef =>
      obtain rfl : [] = names := by simpa [hv] using h
      simp [namesIn]
    | array items => simp [← (by simpa [hv] using h : namesIn (.array items) = names)]
    | string s => simp [← (by simpa [hv] using h : namesIn (.string s) = names)]
    | _ => simp [hv, throw, throwThe, MonadExceptOf.throw] at h

namespace Host

/-- What a host makes of a change. -/
def change (h : Host) (c : ClassCall) (level : Nat) : Except NodeError Host :=
  match c with
  | .assign name => h.assignClass name level
  | .remove name => (h.removeClass name level).map (·.2)

/-- A level has got a new copy of its file, which lists these classes. -/
def Edits (h : Host) (level : Nat) (l : CompiledLevel) (classes : Set String) (h' : Host) : Prop :=
  ∃ copy, h'.node.compiled = h.node.compiled.putLevel level { l with file := copy } ∧
    h'.node.classListKey = h.node.classListKey ∧
    DataFile.Kept l.path h.world.files copy h'.world.files ∧
    classesIn (copy.bind (·.get? h.node.classListKey)) = classes

/-- A level has got a new copy of its file, with this value in the place of the list. -/
def Relists (h : Host) (level : Nat) (l : CompiledLevel) (v : Option Value) (h' : Host) : Prop :=
  ∃ copy, h'.node.compiled = h.node.compiled.putLevel level { l with file := copy } ∧
    h'.node.classListKey = h.node.classListKey ∧
    DataFile.Kept l.path h.world.files copy h'.world.files ∧
    copy.bind (·.get? h.node.classListKey) = v

variable {h h' : Host} {level : Nat} {l : CompiledLevel} {name : String} {names : List String}

theorem Relists.edits {v : Option Value} (hr : h.Relists level l v h') :
    h.Edits level l (classesIn v) h' := by
  obtain ⟨copy, hcompiled, hkey, hkept, rfl⟩ := hr
  exact ⟨copy, hcompiled, hkey, hkept, rfl⟩

/-- A class that the level has under some form of its name changes nothing; any other one comes to the
end of the list. -/
theorem assignClass_relists (hl : h.node.compiled.levels[level]? = some l)
    (hn : h.node.namesAt level = .ok names) (ha : h.assignClass name level = .ok h') :
    (∃ n ∈ names, Name.normalize n = Name.normalize name) ∧ h' = h ∨
      (¬∃ n ∈ names, Name.normalize n = Name.normalize name) ∧
        h.Relists level l (some (Node.listOf (names ++ [Name.normalize name]))) h' ∧
        h'.node.sources = h.node.sources.set (.hostClass, Name.normalize name) level := by
  obtain ⟨names', hn', ha⟩ := bind_eq_ok.mp ha
  obtain rfl : names' = names := Except.ok.inj (hn'.symm.trans hn)
  simp only [List.any_eq_true, beq_iff_eq] at ha
  split at ha
  next hin => exact .inl ⟨hin, (Except.ok.inj ha).symm⟩
  next hout =>
    obtain ⟨⟨compiled, files⟩, hs, ha⟩ := bind_eq_ok.mp ha
    obtain ⟨f, rfl, hf, hk⟩ := Compiled.exists_of_assignRaw hl (NodeError.liftM_eq_ok.mp hs)
    obtain rfl := Except.ok.inj ha
    refine .inr ⟨hout, ⟨some f, rfl, rfl, hk, hf⟩, ?_⟩
    rw [Node.registerSource, Name.normalize_normalize]
    rfl

/-- A class that a level gets is registered with that level. -/
theorem assignClass_outcome (hl : h.node.compiled.levels[level]? = some l)
    (ha : h.assignClass name level = .ok h') :
    Name.normalize name ∈ classesIn (l.get? h.node.classListKey) ∧ h' = h ∨
      Name.normalize name ∉ classesIn (l.get? h.node.classListKey) ∧
        h.Edits level l (insert (Name.normalize name) (classesIn (l.get? h.node.classListKey)))
          h' ∧ h'.node.sources = h.node.sources.set (.hostClass, Name.normalize name) level := by
  obtain ⟨names, hn, -⟩ := bind_eq_ok.mp ha
  rw [Node.classesIn_of_namesAt hl hn]
  rcases assignClass_relists hl hn ha with hidle | ⟨hout, hr, hs⟩
  · exact .inl hidle
  · refine .inr ⟨hout, ?_, hs⟩
    have hclasses : classesIn (some (Node.listOf (names ++ [Name.normalize name]))) =
        insert (Name.normalize name) {c | ∃ n ∈ names, Name.normalize n = c} := by
      rw [classesIn_listOf]
      ext c
      simp [or_comm, eq_comm]
    exact hclasses ▸ hr.edits

/-- The classes that are left of a list when one is taken out. -/
theorem setOf_filter_ne (names : List String) (name : String) :
    {c | ∃ n ∈ names.filter fun n => Name.normalize n != Name.normalize name,
        Name.normalize n = c} =
      {c | ∃ n ∈ names, Name.normalize n = c} \ {Name.normalize name} := by
  ext c
  simp only [List.mem_filter, bne_iff_ne, Set.mem_ofPred_eq, Set.mem_sdiff, Set.mem_singleton_iff]
  constructor
  · rintro ⟨n, ⟨hm, hne⟩, rfl⟩
    exact ⟨⟨n, hm, rfl⟩, hne⟩
  · rintro ⟨⟨n, hm, rfl⟩, hne⟩
    exact ⟨n, ⟨hm, hne⟩, rfl⟩

/-- What is written in the place of a list: an empty one is left out. -/
def listed? (names : List String) : Option Value :=
  if names.isEmpty then none else some (Node.listOf names)

theorem classesIn_listed? (names : List String) :
    classesIn (listed? names) = {c | ∃ n ∈ names, Name.normalize n = c} := by
  unfold listed?
  split
  next hnil => simp [List.isEmpty_iff.mp hnil, classesIn]
  next => exact classesIn_listOf names

/-- A class that the level has goes under all forms of its name, and nothing else does. -/
theorem removeClass_relists {found : Bool} (hl : h.node.compiled.levels[level]? = some l)
    (hn : h.node.namesAt level = .ok names) (ha : h.removeClass name level = .ok (found, h')) :
    found = false ∧ (¬∃ n ∈ names, Name.normalize n = Name.normalize name) ∧ h' = h ∨
      found = true ∧ (∃ n ∈ names, Name.normalize n = Name.normalize name) ∧
        h.Relists level l
          (listed? (names.filter fun n => Name.normalize n != Name.normalize name)) h' ∧
        h'.node.sources = h.node.sources.erase (.hostClass, Name.normalize name) := by
  obtain ⟨names', hn', ha⟩ := bind_eq_ok.mp ha
  obtain rfl : names' = names := Except.ok.inj (hn'.symm.trans hn)
  simp only [List.length_filter_eq_length_iff, bne_iff_ne] at ha
  unfold listed?
  split at ha
  next hout =>
    obtain ⟨rfl, rfl⟩ := Prod.mk.inj (Except.ok.inj ha)
    exact .inl ⟨rfl, fun ⟨n, hm, he⟩ => hout n hm he, rfl⟩
  next hin =>
    refine .inr ?_
    split at ha
    next hnil =>
      obtain ⟨⟨removed, compiled, files⟩, he, ha⟩ := bind_eq_ok.mp ha
      obtain ⟨rfl, rfl⟩ := Prod.mk.inj (Except.ok.inj ha)
      obtain ⟨copy, rfl, hf, hk⟩ := Compiled.exists_of_erase hl (NodeError.liftM_eq_ok.mp he)
      rw [if_pos hnil]
      exact ⟨rfl, by simpa using hin, ⟨copy, rfl, rfl, hk, hf⟩, rfl⟩
    next hcons =>
      obtain ⟨⟨compiled, files⟩, hs, ha⟩ := bind_eq_ok.mp ha
      obtain ⟨rfl, rfl⟩ := Prod.mk.inj (Except.ok.inj ha)
      obtain ⟨f, rfl, hf, hk⟩ := Compiled.exists_of_assignRaw hl (NodeError.liftM_eq_ok.mp hs)
      rw [if_neg hcons]
      exact ⟨rfl, by simpa using hin, ⟨some f, rfl, rfl, hk, hf⟩, rfl⟩

/-- A class that a level loses is registered no more. -/
theorem removeClass_outcome {found : Bool} (hl : h.node.compiled.levels[level]? = some l)
    (ha : h.removeClass name level = .ok (found, h')) :
    Name.normalize name ∉ classesIn (l.get? h.node.classListKey) ∧ h' = h ∨
      Name.normalize name ∈ classesIn (l.get? h.node.classListKey) ∧
        h.Edits level l (classesIn (l.get? h.node.classListKey) \ {Name.normalize name}) h' ∧
          h'.node.sources = h.node.sources.erase (.hostClass, Name.normalize name) := by
  obtain ⟨names, hn, -⟩ := bind_eq_ok.mp ha
  rw [Node.classesIn_of_namesAt hl hn]
  rcases removeClass_relists hl hn ha with ⟨-, hidle⟩ | ⟨-, hin, hr, hs⟩
  · exact .inl hidle
  · refine .inr ⟨hin, ?_, hs⟩
    rw [← setOf_filter_ne, ← classesIn_listed?]
    exact hr.edits

/-- A change that does nothing to the copy of the level does nothing at all; any other is made to
the copy, which is then written, and to the registration of the class. -/
theorem change_outcome {c : ClassCall} (hl : h.node.compiled.levels[level]? = some l)
    (hc : h.change c level = .ok h') :
    c.apply (classesIn (l.get? h.node.classListKey)) = classesIn (l.get? h.node.classListKey) ∧
        h' = h ∨
      c.apply (classesIn (l.get? h.node.classListKey)) ≠ classesIn (l.get? h.node.classListKey) ∧
        h.Edits level l (c.apply (classesIn (l.get? h.node.classListKey))) h' ∧
          ∀ key, h'.node.sources.get? key =
            if (.hostClass, Name.normalize c.name) = key then c.registered level
            else h.node.sources.get? key := by
  cases c with
  | assign name =>
    rcases assignClass_outcome hl hc with ⟨hin, rfl⟩ | ⟨hout, he, hs⟩
    · exact .inl ⟨ClassCall.apply_assign_eq_self.mpr hin, rfl⟩
    · exact .inr ⟨fun e => hout (ClassCall.apply_assign_eq_self.mp e), he,
        fun key => by rw [hs, Table.get?_set]; rfl⟩
  | remove name =>
    cases hr : h.removeClass name level with
    | error e => simp [change, hr, Except.map] at hc
    | ok r =>
      obtain ⟨found, h''⟩ := r
      obtain rfl : h'' = h' := by simpa [change, hr, Except.map] using hc
      rcases removeClass_outcome hl hr with ⟨hout, rfl⟩ | ⟨hin, he, hs⟩
      · exact .inl ⟨ClassCall.apply_remove_eq_self.mpr hout, rfl⟩
      · exact .inr ⟨fun e => ClassCall.apply_remove_eq_self.mp e hin, he,
          fun key => by rw [hs, Table.get?_erase]; rfl⟩

end Host

/-- Nodes in one world, each with its number of the level that they share. -/
structure Fleet (ι : Type) where
  nodes : ι → Node
  level : ι → Nat
  world : World

namespace Fleet

variable {ι : Type} [DecidableEq ι]

/-- A change made by one of the nodes. -/
def call (F : Fleet ι) (e : ι × ClassCall) : Except NodeError (Fleet ι) := do
  let h ← Host.change ⟨F.nodes e.1, F.world⟩ e.2 (F.level e.1)
  return { F with nodes := Function.update F.nodes e.1 h.node, world := h.world }

def calls (F : Fleet ι) (es : List (ι × ClassCall)) : Except NodeError (Fleet ι) := es.foldlM call F

/-- The nodes share the file at this path, and the key of its class list. -/
structure Shares (F : Fleet ι) (path key : String) : Prop where
  level : ∀ i, ∃ l, (F.nodes i).compiled.levels[F.level i]? = some l ∧ l.path = path
  key : ∀ i, (F.nodes i).classListKey = key

/-- The copy of the file that a node has. -/
def copy? (F : Fleet ι) (i : ι) : Option DataFile :=
  ((F.nodes i).compiled.levels[F.level i]?).bind (·.file)

/-- The classes in the copy of a node. -/
def copied (F : Fleet ι) (key : String) (i : ι) : Set String :=
  classesIn ((F.copy? i).bind (·.get? key))

/-- The classes in the file. -/
def listed (F : Fleet ι) (path key : String) : Set String :=
  match DataFile.open F.world.files path with
  | .ok file => classesIn (file.bind (·.get? key))
  | .error _ => ∅

/-- Every copy of the file would be read with the same classes if it were written. -/
def Legible (F : Fleet ι) (key : String) : Prop :=
  ∀ i f, F.copy? i = some f → ∃ g, DataFile.parse f.path f.text = .ok g ∧
    classesIn (g.get? key) = classesIn (f.get? key)

variable {F F' G : Fleet ι} {path key : String} {i : ι} {c : ClassCall} {es : List (ι × ClassCall)}

theorem exists_of_call (h : F.call (i, c) = .ok F') :
    ∃ w, Host.change ⟨F.nodes i, F.world⟩ c (F.level i) = .ok w ∧
      F' = { F with nodes := Function.update F.nodes i w.node, world := w.world } := by
  obtain ⟨w, hw, h⟩ := bind_eq_ok.mp h
  exact ⟨w, hw, (Except.ok.inj h).symm⟩

/-- Either nothing was done, or the node has a new copy of the file, changed from its old one. -/
theorem call_outcome (hs : F.Shares path key) (h : F.call (i, c) = .ok F') :
    F'.Shares path key ∧
      (c.apply (F.copied key i) = F.copied key i ∧ F' = F ∨
        c.apply (F.copied key i) ≠ F.copied key i ∧
          DataFile.Kept path F.world.files (F'.copy? i) F'.world.files ∧
            F'.copied key i = c.apply (F.copied key i)) := by
  obtain ⟨w, hw, rfl⟩ := exists_of_call h
  obtain ⟨l, hl, hp⟩ := hs.level i
  have hk := hs.key i
  have hcopied : F.copied key i = classesIn (l.get? (F.nodes i).classListKey) := by
    simp [copied, copy?, hl, hk, CompiledLevel.get?]
  rcases Host.change_outcome hl hw with ⟨hidle, rfl⟩ |
    ⟨hne, ⟨copy, hcomp, hkey, hkept, hclasses⟩, -⟩
  · rw [Function.update_eq_self]
    exact ⟨hs, .inl ⟨by rw [hcopied]; exact hidle, rfl⟩⟩
  · have hlevel : w.node.compiled.levels[F.level i]? = some { l with file := copy } := by
      have hlt := (List.getElem?_eq_some_iff.mp hl).1
      simp only at hcomp
      simp [hcomp, Compiled.putLevel, hlt]
    refine ⟨⟨?_, ?_⟩, .inr ⟨by rw [hcopied]; exact hne, ?_, ?_⟩⟩
    · intro j
      by_cases hj : j = i
      · subst hj
        exact ⟨{ l with file := copy }, by simpa using hlevel, hp⟩
      · simpa [hj] using hs.level j
    · intro j
      by_cases hj : j = i
      · subst hj
        simpa using hkey.trans hk
      · simpa [hj] using hs.key j
    · rw [← hp]
      simpa [copy?, hlevel] using hkept
    · rw [hcopied]
      simpa [copied, copy?, hlevel, hk] using hclasses

omit [DecidableEq ι] in
theorem listed_of_kept (hr : F'.Legible key)
    (hk : DataFile.Kept path F.world.files (F'.copy? i) F'.world.files) :
    F'.listed path key = F'.copied key i := by
  cases hcopy : F'.copy? i with
  | none =>
    rw [hcopy] at hk
    generalize hfiles : F'.world.files = files at hk
    cases hk with
    | read ho => simp [listed, copied, hcopy, hfiles, ho]
  | some f =>
    rw [hcopy] at hk
    generalize hfiles : F'.world.files = files at hk
    cases hk with
    | read ho => simp [listed, copied, hcopy, hfiles, ho]
    | written hp _ _ hsave =>
      obtain ⟨g, hg, hclasses⟩ := hr i f hcopy
      have ho := DataFile.open_of_save hsave
      rw [hp] at ho hg
      simp [listed, copied, hcopy, hfiles, ho, hg, Except.map, hclasses]

/-- A call does to the file what it should if and only if the change fits. -/
theorem call_listed_iff (hs : F.Shares path key) (h : F.call (i, c) = .ok F')
    (hr : F'.Legible key) :
    F'.listed path key = c.apply (F.listed path key) ↔
      c.Fits (F.copied key i) (F.listed path key) := by
  rcases (call_outcome hs h).2 with ⟨hidle, rfl⟩ | ⟨hne, hk, hcopied⟩
  · constructor
    · intro he
      exact ⟨fun _ => he.symm, fun hn => absurd hidle hn⟩
    · intro hf
      exact (hf.1 hidle).symm
  · rw [listed_of_kept hr hk, hcopied]
    constructor
    · intro he
      exact ⟨fun hi => absurd hi hne, fun _ => he⟩
    · intro hf
      exact hf.2 hne

theorem calls_snoc (F : Fleet ι) (es : List (ι × ClassCall)) (e : ι × ClassCall) :
    F.calls (es ++ [e]) = (F.calls es).bind fun G => G.call e := by
  simp only [calls, List.foldlM_append, List.foldlM_cons, List.foldlM_nil, Bind.bind]
  congr 1
  funext G
  cases G.call e <;> rfl

theorem exists_of_calls_snoc {e : ι × ClassCall} (h : F.calls (es ++ [e]) = .ok G) :
    ∃ F', F.calls es = .ok F' ∧ F'.call e = .ok G := by
  rw [calls_snoc] at h
  exact bind_eq_ok.mp h

theorem exists_of_prefix (h : F.calls es = .ok F') {pre : List (ι × ClassCall)} (hp : pre <+: es) :
    ∃ G, F.calls pre = .ok G := by
  obtain ⟨post, rfl⟩ := hp
  rw [calls, List.foldlM_append] at h
  obtain ⟨G, hG, -⟩ := bind_eq_ok.mp h
  exact ⟨G, hG⟩

theorem Shares.calls (hs : F.Shares path key) (h : F.calls es = .ok F') : F'.Shares path key := by
  induction es using List.reverseRecOn generalizing F' with
  | nil =>
    obtain rfl : F = F' := by simpa [Fleet.calls, pure, Except.pure] using h
    exact hs
  | append_singleton es e ih =>
    obtain ⟨G, hes, he⟩ := exists_of_calls_snoc h
    exact (call_outcome (ih hes) he).1

/-- Through a run of calls by any of the nodes, the file lists at every point what was listed or
assigned and not removed since, if and only if every change fits at its time. -/
theorem calls_listed_iff (hs : F.Shares path key) (h : F.calls es = .ok F')
    (hr : ∀ pre G, pre <+: es → F.calls pre = .ok G → G.Legible key) :
    (∀ pre G, pre <+: es → F.calls pre = .ok G →
      G.listed path key = pre.foldl (fun s e => e.2.apply s) (F.listed path key)) ↔
    ∀ pre i c G, pre ++ [(i, c)] <+: es → F.calls pre = .ok G →
      c.Fits (G.copied key i) (G.listed path key) := by
  constructor
  · intro hkeep pre i c G hp hpre
    obtain ⟨G', hG'⟩ := exists_of_prefix h hp
    obtain ⟨G₁, hG₁, hcall⟩ := exists_of_calls_snoc hG'
    obtain rfl : G₁ = G := by simpa [hpre] using hG₁.symm
    have hbefore := hkeep pre G₁ ((List.prefix_append pre [(i, c)]).trans hp) hpre
    have hafter := hkeep (pre ++ [(i, c)]) G' hp hG'
    rw [List.foldl_append, ← hbefore] at hafter
    exact (call_listed_iff (hs.calls hpre) hcall (hr _ G' hp hG')).mp hafter
  · intro hfits pre
    induction pre using List.reverseRecOn with
    | nil =>
      intro G hp hG
      obtain rfl : F = G := by simpa [Fleet.calls, pure, Except.pure] using hG
      rfl
    | append_singleton pre e ih =>
      intro G' hp hG'
      obtain ⟨i, c⟩ := e
      obtain ⟨G, hG, hcall⟩ := exists_of_calls_snoc hG'
      have hbefore := ih G ((List.prefix_append pre [(i, c)]).trans hp) hG
      have hstep := (call_listed_iff (hs.calls hG) hcall (hr _ G' hp hG')).mpr
        (hfits pre i c G hp hG)
      rw [List.foldl_append, ← hbefore]
      exact hstep

/-- A node that works alone on a copy that is up to date loses nothing. -/
theorem calls_listed_of_alone (hs : F.Shares path key) (h : F.calls es = .ok F')
    (hr : ∀ pre G, pre <+: es → F.calls pre = .ok G → G.Legible key) (hi : ∀ e ∈ es, e.1 = i)
    (hcopy : F.copied key i = F.listed path key) :
    F'.copied key i = F'.listed path key ∧
      F'.listed path key = es.foldl (fun s e => e.2.apply s) (F.listed path key) := by
  induction es using List.reverseRecOn generalizing F' with
  | nil =>
    obtain rfl : F = F' := by simpa [Fleet.calls, pure, Except.pure] using h
    exact ⟨hcopy, rfl⟩
  | append_singleton es e ih =>
    obtain ⟨j, c⟩ := e
    obtain rfl : j = i := hi (j, c) (by simp)
    obtain ⟨G, hG, hcall⟩ := exists_of_calls_snoc h
    have hprefix : es <+: es ++ [(j, c)] := List.prefix_append es _
    obtain ⟨hsame, hlist⟩ := ih hG (fun pre G' hp => hr pre G' (hp.trans hprefix))
      fun e he => hi e (by simp [he])
    rw [List.foldl_append, ← hlist]
    rcases (call_outcome (hs.calls hG) hcall).2 with ⟨hidle, rfl⟩ | ⟨-, hk, hcopied⟩
    · exact ⟨hsame, by rw [← hsame]; exact hidle.symm⟩
    · have hlisted := listed_of_kept (hr _ F' List.prefix_rfl h) hk
      exact ⟨hlisted.symm, by rw [hlisted, hcopied, hsame]; rfl⟩

end Fleet

theorem classesIn_congr {v w : Option Value} (h : v.map Node.namesIn = w.map Node.namesIn) :
    classesIn v = classesIn w := by
  cases v <;> cases w <;> simp_all [classesIn]

namespace Fleet

def commonLevel : Level := ⟨"Common data", "common.yaml", none, none⟩

/-- A node that has just been made over an empty directory. -/
def newcomer (certname : String) : Node where
  identity := .ofCertname certname
  facts := []
  hierarchy := ⟨5, "data", none, [commonLevel]⟩
  compiled := ⟨[⟨commonLevel, "data/common.yaml", none, none⟩], []⟩
  loader := .shelf
  classListKey := Node.standardClassListKey
  classes := .empty
  resources := .empty
  functions := .empty
  sources := []

example : Node.create (.empty [] 0) "n0" [] ⟨5, "data", none, [commonLevel]⟩ .shelf =
    .ok (newcomer "n0") := rfl

def newcomers : Fleet Bool where
  nodes b := newcomer (if b then "n1" else "n0")
  level _ := 0
  world := .ofFiles (.empty [] 0) ⟨fun _ => 0, 0⟩

/-- Each of two nodes assigns a class; the second one does not know of the first. -/
def crossing : List (Bool × ClassCall) := [(true, .assign "a"), (false, .assign "b")]

theorem newcomers_share : newcomers.Shares "data/common.yaml" "classes" :=
  ⟨fun _ => ⟨_, rfl, rfl⟩, fun _ => rfl⟩

def names? (F : Fleet Bool) : Option (List String) :=
  match DataFile.open F.world.files "data/common.yaml" with
  | .ok file => (file.bind (·.get? "classes")).map Node.namesIn
  | .error _ => none

def isLegible (F : Fleet Bool) : Bool :=
  [false, true].all fun b => (F.copy? b).all fun f => match DataFile.parse f.path f.text with
    | .ok g => (g.get? "classes").map Node.namesIn == (f.get? "classes").map Node.namesIn
    | .error _ => false

theorem legible_of_isLegible {F : Fleet Bool} (h : F.isLegible = true) : F.Legible "classes" := by
  intro b f hf
  have hb : (F.copy? b).all (fun f => match DataFile.parse f.path f.text with
      | .ok g => (g.get? "classes").map Node.namesIn == (f.get? "classes").map Node.namesIn
      | .error _ => false) = true := List.all_eq_true.mp h b (by cases b <;> simp)
  rw [hf, Option.all_some] at hb
  cases hg : DataFile.parse f.path f.text with
  | error e => simp [hg] at hb
  | ok g => exact ⟨g, rfl, classesIn_congr (by simpa [hg] using hb)⟩

theorem crossing_legible : ∀ pre G, pre <+: crossing → newcomers.calls pre = .ok G →
    G.Legible "classes" := by
  have hall : ∀ pre ∈ crossing.inits, ((newcomers.calls pre).toOption.all isLegible) = true := by
    decide +kernel
  intro pre G hp hG
  have h := hall pre ((List.mem_inits pre crossing).mpr hp)
  rw [hG] at h
  exact legible_of_isLegible (by simpa [Except.toOption] using h)

theorem exists_of_crossing :
    ∃ G, newcomers.calls crossing = .ok G ∧ G.names? = some ["b"] := by
  have h : (newcomers.calls crossing).toOption.bind names? = some ["b"] := by decide +kernel
  cases hG : newcomers.calls crossing with
  | error e => simp [hG, Except.toOption] at h
  | ok G => exact ⟨G, rfl, by simpa [hG, Except.toOption] using h⟩

theorem crossing_listed_iff :
    (∀ pre G, pre <+: crossing → newcomers.calls pre = .ok G →
      G.listed "data/common.yaml" "classes" =
        pre.foldl (fun s e => e.2.apply s) (newcomers.listed "data/common.yaml" "classes")) ↔
    ∀ pre i c G, pre ++ [(i, c)] <+: crossing → newcomers.calls pre = .ok G →
      c.Fits (G.copied "classes" i) (G.listed "data/common.yaml" "classes") := by
  obtain ⟨F', h, -⟩ := exists_of_crossing
  exact calls_listed_iff newcomers_share h crossing_legible

/-- The class that the first node has assigned is gone. -/
theorem lost_update : newcomers.Shares "data/common.yaml" "classes" ∧
    ∃ G, newcomers.calls crossing = .ok G ∧ G.listed "data/common.yaml" "classes" ≠
      crossing.foldl (fun s e => e.2.apply s)
        (newcomers.listed "data/common.yaml" "classes") := by
  obtain ⟨G, hG, hnames⟩ := exists_of_crossing
  refine ⟨newcomers_share, G, hG, ?_⟩
  have hlisted : G.listed "data/common.yaml" "classes" = {Name.normalize "b"} := by
    unfold names? at hnames
    unfold listed
    split at hnames
    next file ho =>
      obtain ⟨v, hv, hn⟩ := Option.map_eq_some_iff.mp hnames
      simp only [hv, classesIn_some, hn]
      ext c
      simp [eq_comm]
    · exact absurd hnames (by simp)
  rw [hlisted]
  intro he
  have ha : Name.normalize "a" ∈ ({Name.normalize "b"} : Set String) := by
    rw [he]
    simp [crossing, ClassCall.apply]
  exact absurd ha (by decide +kernel)

end Fleet

end Cascade
