import Cascade.Proofs.DataFile
import Cascade.Proofs.Node.ClassLists
import Cascade.Proofs.Node.Writes
/-!
Overrides that several nodes write to data files they share. Each call reads the file again, changes
one key of what it has read and writes that, so a call does just what it says to the file, whatever
the other nodes have done to it before. It does so if and only if the header of what it writes is
still read as its header.
-/
namespace Cascade

/-- What a node can be asked to do with an override. -/
inductive PropertyCall
  | set (className property : String) (v : Value) (level : Nat)
  | remove (className property : String) (level : Nat)

namespace PropertyCall

def level : PropertyCall → Nat
  | set _ _ _ level | remove _ _ level => level

def key : PropertyCall → String
  | set className property _ _ | remove className property _ =>
    Machine.overrideKey (Name.normalize className) property

/-- What a call gives back, by the file that it finds. -/
def answer (c : PropertyCall) (old : Option DataFile) : Option Value :=
  match c with
  | set .. => none
  | remove .. => old.bind (·.get? c.key)

/-- The file after a call. -/
def apply (c : PropertyCall) (path : String) (old : Option DataFile) : Option DataFile :=
  match c with
  | set _ _ v _ => some ((old.getD (.empty path)).set c.key v)
  | remove .. => old.map (·.erase c.key)

/-- A key that is not there is not removed. -/
def writes (c : PropertyCall) (old : Option DataFile) : Bool :=
  match c with
  | set .. => true
  | remove .. => (c.answer old).isSome

/-- Whether what is written is data. -/
def isData : PropertyCall → Bool
  | set _ _ v _ => v.isData
  | remove .. => true

def run (c : PropertyCall) (m : Machine Host) : Except NodeError (Option Value × Machine Host) :=
  match c with
  | set className property v level => (m.setProperty className property v level).map (none, ·)
  | remove className property level => m.removeProperty className property level

variable {c : PropertyCall} {path : String} {old : Option DataFile} {f : DataFile}

/-- A call that does not write leaves the file as it is. -/
theorem apply_of_not_writes (h : c.writes old = false) : c.apply path old = old := by
  cases c with
  | set => exact absurd h (by simp [writes])
  | remove className property level =>
    cases old with
    | none => rfl
    | some f =>
      have hget : Table.get? f.data (remove className property level).key = none := by
        simpa [writes, answer, DataFile.get?] using h
      rw [apply, Option.map_some, DataFile.erase, Table.erase_eq_self hget]

theorem isData_apply (hc : c.isData = true) (hold : ∀ f, old = some f → f.isData = true)
    (h : c.apply path old = some f) : f.isData = true := by
  cases c with
  | set className property v level =>
    obtain rfl := Option.some.inj h
    refine DataFile.isData_set ?_ hc _
    cases old with
    | none => exact DataFile.isData_empty path
    | some g => exact hold g rfl
  | remove className property level =>
    obtain ⟨g, hg, rfl⟩ := Option.map_eq_some_iff.mp h
    exact DataFile.isData_erase (hold g hg) _

/-- A call changes neither path nor header. -/
theorem outline_apply (hold : ∀ f, old = some f → f.path = path) (h : c.apply path old = some f) :
    f.path = path ∧ f.header = (old.map (·.header)).getD "" := by
  cases c with
  | set className property v level =>
    obtain rfl := Option.some.inj h
    cases old with
    | none => exact ⟨rfl, rfl⟩
    | some g => exact ⟨hold g rfl, rfl⟩
  | remove className property level =>
    obtain ⟨g, rfl, rfl⟩ := Option.map_eq_some_iff.mp h
    exact ⟨hold g rfl, rfl⟩

end PropertyCall

/-- All files but the one at a path are as they were, and no other one is new. -/
def Files.Spares (files files' : Files) (path : String) : Prop :=
  ∃ target, files'.locate path = .ok target ∧ ∀ place, place ≠ target →
    files'.entry? place = files.entry? place ∨
      files.entry? place = none ∧ ∃ t, files'.entry? place = some (.directory t)

theorem DataFile.gains_makeParent {files files' : Files} {path : String}
    (h : makeParent files path = .ok files') : files.Gains files' := by
  unfold makeParent at h
  split at h
  · obtain rfl := Except.ok.inj h
    exact .refl files
  · split at h
    · exact absurd h (by simp)
    next hm =>
      obtain rfl := Except.ok.inj h
      exact Files.gains_makeDirectoriesWithin hm

theorem DataFile.spares_of_save {f : DataFile} {files files' : Files}
    (h : f.save files = .ok files') : files.Spares files' f.path := by
  obtain ⟨made, hm, hw⟩ := exists_of_save h
  obtain ⟨target, hl, hother⟩ := Files.exists_of_write hw
  refine ⟨target, hl, fun place hp => ?_⟩
  rw [hother place hp]
  exact gains_makeParent hm place

namespace Compiled

variable {c c' : Compiled} {l : CompiledLevel} {files files' : Files} {n : Nat} {key : String}

/-- A level without keys stores a value as it is. -/
theorem exists_set_of_assign {v : Value} {entropy entropy' : Entropy} (hl : c.levels[n]? = some l)
    (hk : l.keys = none) (h : c.assign files entropy n key v = .ok (c', files', entropy')) :
    ∃ l', l.set files key v = .ok (l', files') ∧ c' = c.putLevel n l' := by
  obtain ⟨l₀, stored, hl₀, hs, ha⟩ := exists_assignRaw_of_assign h
  obtain rfl := Option.some.inj (hl.symm.trans hl₀)
  rw [storedForm, hk] at hs
  obtain ⟨rfl, rfl⟩ := Prod.mk.inj (Except.ok.inj hs)
  exact exists_set_of_assignRaw hl ha

end Compiled

namespace PropertyCall

variable {c : PropertyCall} {m m' : Machine Host} {l : CompiledLevel} {v : Option Value}

/-- What a call does to the copy of its level and to the files. -/
structure Does (c : PropertyCall) (l : CompiledLevel) (old : Option DataFile) (v : Option Value)
    (m m' : Machine Host) : Prop where
  found : DataFile.open m.host.world.files l.path = .ok old
  answer : v = c.answer old
  compiled : m'.host.node.compiled =
    m.host.node.compiled.putLevel c.level { l with file := c.apply l.path old }
  saved : c.writes old = true → ∃ f, c.apply l.path old = some f ∧
    f.save m.host.world.files = .ok m'.host.world.files
  kept : c.writes old = false → m'.host.world.files = m.host.world.files

/-- A call changes one level of its node, and there the copy of the file. -/
theorem exists_level_of_run (h : c.run m = .ok (v, m')) :
    ∃ l copy, m.host.node.compiled.levels[c.level]? = some l ∧
      m'.host.node.compiled = m.host.node.compiled.putLevel c.level { l with file := copy } := by
  cases c with
  | set className property w level =>
    cases hs : m.setProperty className property w level with
    | error e => simp [run, hs, Except.map] at h
    | ok m'' =>
      simp only [run, hs, Except.map, Except.ok.injEq, Prod.mk.injEq] at h
      obtain ⟨-, rfl⟩ := h
      obtain ⟨l, copy, hl, hc, -⟩ := (Machine.writes_setProperty hs).level
      exact ⟨l, copy, hl, hc⟩
  | remove className property level =>
    obtain ⟨l, copy, hl, hc, -⟩ := (Machine.writes_removeProperty h).level
    exact ⟨l, copy, hl, hc⟩

theorem exists_does_of_run (hl : m.host.node.compiled.levels[c.level]? = some l)
    (hk : l.keys = none) (h : c.run m = .ok (v, m')) : ∃ old, c.Does l old v m m' := by
  cases c with
  | set className property w level =>
    cases hs : m.setProperty className property w level with
    | error e => simp [run, hs, Except.map] at h
    | ok m'' =>
      simp only [run, hs, Except.map, Except.ok.injEq, Prod.mk.injEq] at h
      obtain ⟨rfl, rfl⟩ := h
      obtain ⟨compiled, files, entropy, ha, rfl⟩ := Machine.exists_of_setProperty hs
      obtain ⟨l', hset, hc⟩ := Compiled.exists_set_of_assign hl hk ha
      obtain ⟨old, ho, rfl, hsave⟩ := CompiledLevel.set_outcome hset
      exact ⟨old, ho, rfl, hc, fun _ => ⟨_, rfl, hsave⟩, fun hn => absurd hn (by simp [writes])⟩
  | remove className property level =>
    obtain ⟨compiled, files, he, rfl⟩ := Machine.exists_of_removeProperty h
    obtain ⟨l', herase, hc⟩ := Compiled.exists_erase_of_erase hl he
    obtain ⟨old, ho, hv, hrest⟩ := CompiledLevel.erase_outcome herase
    have hanswer : v = (remove className property level).answer old := hv
    rcases hrest with ⟨hnone, rfl, hfiles⟩ | ⟨f, rfl, hsome, rfl, hsave⟩
    · have hn : (remove className property level).writes old = false := by
        simp [writes, ← hanswer, hnone]
      refine ⟨old, ho, hanswer, ?_, fun hw => absurd hw (by simp [hn]), fun _ => hfiles⟩
      rw [apply_of_not_writes hn]
      exact hc
    · have hw : (remove className property level).writes (some f) = true := by
        simp [writes, ← hanswer, hsome]
      exact ⟨some f, ho, hanswer, hc, fun _ => ⟨_, rfl, hsave⟩, fun hn => absurd hw (by simp [hn])⟩

/-- The file that a call has written is read as it was written if and only if it keeps its header. -/
theorem Does.open_iff {old : Option DataFile} (h : c.Does l old v m m') (hd : c.isData = true)
    (hw : c.writes old = true) {f : DataFile} (hf : c.apply l.path old = some f)
    (hr : f.ReadsBack) :
    DataFile.open m'.host.world.files l.path = .ok (some f) ↔ f.keepsHeader := by
  obtain ⟨hpath, hheader⟩ := outline_apply
    (fun g hg => DataFile.path_of_open (hg ▸ h.found)) hf
  have hdata : f.isData = true := isData_apply hd (fun g hg =>
    (DataFile.exists_parse_of_open (hg ▸ h.found)).elim fun text => DataFile.isData_of_parse) hf
  obtain ⟨f', hf', hsave⟩ := h.saved hw
  obtain rfl : f' = f := Option.some.inj (hf'.symm.trans hf)
  exact DataFile.open_of_save_iff h.found hpath hheader hdata hr hsave

end PropertyCall

/-- Nodes in one world. What a machine says of the world is out of date as soon as another one works. -/
structure Cluster (ι : Type) where
  machines : ι → Machine Host
  world : World

namespace Cluster

variable {ι : Type} [DecidableEq ι]

def machine (K : Cluster ι) (i : ι) : Machine Host :=
  { K.machines i with host := { (K.machines i).host with world := K.world } }

/-- A call by one of the nodes. -/
def call (K : Cluster ι) (e : ι × PropertyCall) : Except NodeError (Option Value × Cluster ι) := do
  let (v, m) ← e.2.run (K.machine e.1)
  return (v, ⟨Function.update K.machines e.1 m, m.host.world⟩)

/-- The nodes after some calls, of which those that fail change nothing. -/
def after (K : Cluster ι) (es : List (ι × PropertyCall)) : Cluster ι :=
  es.foldl (fun K e => ((K.call e).toOption.map (·.2)).getD K) K

/-- The level that a call is about. -/
def level? (K : Cluster ι) (e : ι × PropertyCall) : Option CompiledLevel :=
  (K.machines e.1).host.node.compiled.levels[e.2.level]?

/-- What a call finds at the path of its level. -/
def found? (K : Cluster ι) (e : ι × PropertyCall) : Option (CompiledLevel × Option DataFile) :=
  (K.level? e).bind fun l => (DataFile.open K.world.files l.path).toOption.map (l, ·)

/-- The file that a call writes. -/
def written? (K : Cluster ι) (e : ι × PropertyCall) : Option DataFile :=
  (K.found? e).bind fun (l, old) => if e.2.writes old then e.2.apply l.path old else none

/-- A call does to the file of its level what it says, whatever the node has had in memory of it, and
the node then has in memory what is in the file. It gives the value that the file had, and touches no
other file. -/
def Lossless (K K' : Cluster ι) (e : ι × PropertyCall) (v : Option Value) : Prop :=
  ∃ l old, K.level? e = some l ∧ DataFile.open K.world.files l.path = .ok old ∧
    v = e.2.answer old ∧
    DataFile.open K'.world.files l.path = .ok (e.2.apply l.path old) ∧
    K'.level? e = some { l with file := e.2.apply l.path old } ∧
    if e.2.writes old then K.world.files.Spares K'.world.files l.path
    else K'.world.files = K.world.files

variable {K K' : Cluster ι} {e : ι × PropertyCall} {v : Option Value} {es : List (ι × PropertyCall)}

theorem exists_of_call (h : K.call e = .ok (v, K')) : ∃ m, e.2.run (K.machine e.1) = .ok (v, m) ∧
    K' = ⟨Function.update K.machines e.1 m, m.host.world⟩ := by
  obtain ⟨⟨w, m⟩, hr, h⟩ := bind_eq_ok.mp h
  obtain ⟨rfl, rfl⟩ := Prod.mk.inj (Except.ok.inj h)
  exact ⟨m, hr, rfl⟩

/-- A call is lossless if and only if the header of what it writes is read again. -/
theorem lossless_iff (hk : ∀ l, K.level? e = some l → l.keys = none) (hd : e.2.isData = true)
    (hr : ∀ f, K.written? e = some f → f.ReadsBack) (h : K.call e = .ok (v, K')) :
    K.Lossless K' e v ↔ ∀ f, K.written? e = some f → f.keepsHeader := by
  obtain ⟨m, hrun, rfl⟩ := exists_of_call h
  obtain ⟨l, -, hl, -⟩ := PropertyCall.exists_level_of_run hrun
  have hlevel : K.level? e = some l := hl
  obtain ⟨old, hdoes⟩ := PropertyCall.exists_does_of_run hl (hk l hlevel) hrun
  have hfound : DataFile.open K.world.files l.path = .ok old := hdoes.found
  have hwritten : K.written? e = if e.2.writes old then e.2.apply l.path old else none := by
    simp [written?, found?, hlevel, hfound, Except.toOption]
  have hcopy : level? ⟨Function.update K.machines e.1 m, m.host.world⟩ e =
      some { l with file := e.2.apply l.path old } := by
    have hlt := (List.getElem?_eq_some_iff.mp hl).1
    simp only [level?, Function.update_self]
    rw [hdoes.compiled, Compiled.putLevel, List.getElem?_set_self hlt]
  cases hw : e.2.writes old with
  | false =>
    rw [hw] at hwritten
    have hfiles : m.host.world.files = K.world.files := hdoes.kept hw
    refine iff_of_true ⟨l, old, hlevel, hfound, hdoes.answer, ?_, hcopy, ?_⟩ ?_
    · rw [hfiles, hfound, PropertyCall.apply_of_not_writes hw]
    · simpa [hw] using hfiles
    · simp [hwritten]
  | true =>
    obtain ⟨f, hf, hsave⟩ := hdoes.saved hw
    rw [hw, if_pos rfl, hf] at hwritten
    have hopen := hdoes.open_iff hd hw hf (hr f hwritten)
    constructor
    · rintro ⟨l', old', hl', hfound', -, hopen', -⟩ g hg
      obtain rfl : l' = l := Option.some.inj (hl'.symm.trans hlevel)
      obtain rfl : old' = old := Except.ok.inj (hfound'.symm.trans hfound)
      obtain rfl : f = g := Option.some.inj (hwritten.symm.trans hg)
      exact hopen.mp (hf ▸ hopen')
    · intro hkeep
      refine ⟨l, old, hlevel, hfound, hdoes.answer, ?_, hcopy, ?_⟩
      · rw [hf]
        exact hopen.mpr (hkeep f hwritten)
      · have hpath : f.path = l.path := (PropertyCall.outline_apply
          (fun g hg => DataFile.path_of_open (hg ▸ hfound)) hf).1
        rw [if_pos hw, ← hpath]
        exact DataFile.spares_of_save hsave

/-- What is not encrypted stays so. -/
theorem keys_of_call (h : K.call e = .ok (v, K')) {e' : ι × PropertyCall}
    (hk : ∀ l, K.level? e' = some l → l.keys = none) :
    ∀ l, K'.level? e' = some l → l.keys = none := by
  obtain ⟨m, hrun, rfl⟩ := exists_of_call h
  obtain ⟨l, copy, hl, hc⟩ := PropertyCall.exists_level_of_run hrun
  intro l' hl'
  simp only [level?] at hk hl'
  by_cases hi : e'.1 = e.1
  · rw [hi] at hk hl'
    rw [Function.update_self, hc, Compiled.putLevel, List.getElem?_set] at hl'
    split at hl'
    next hn =>
      split at hl'
      · obtain rfl := Option.some.inj hl'
        exact hk l (hn ▸ hl)
      · exact absurd hl' (by simp)
    next => exact hk l' hl'
  · rw [Function.update_of_ne hi] at hl'
    exact hk l' hl'

theorem after_snoc (K : Cluster ι) (es : List (ι × PropertyCall)) (e : ι × PropertyCall) :
    K.after (es ++ [e]) = (((K.after es).call e).toOption.map (·.2)).getD (K.after es) := by
  rw [after, List.foldl_append]
  rfl

theorem keys_of_after {e' : ι × PropertyCall} (hk : ∀ l, K.level? e' = some l → l.keys = none)
    (es : List (ι × PropertyCall)) : ∀ l, (K.after es).level? e' = some l → l.keys = none := by
  induction es using List.reverseRecOn with
  | nil => exact hk
  | append_singleton es e ih =>
    rw [after_snoc]
    cases hc : (K.after es).call e with
    | error err => exact ih
    | ok r => exact keys_of_call hc ih

/-- Through a run of calls by any of the nodes, every call that succeeds is lossless if and only if
every file that one writes keeps its header. -/
theorem after_lossless_iff (hk : ∀ e ∈ es, ∀ l, K.level? e = some l → l.keys = none)
    (hd : ∀ e ∈ es, e.2.isData = true)
    (hr : ∀ pre e, pre ++ [e] <+: es → ∀ f, (K.after pre).written? e = some f → f.ReadsBack) :
    (∀ pre e v K', pre ++ [e] <+: es → (K.after pre).call e = .ok (v, K') →
      (K.after pre).Lossless K' e v) ↔
    ∀ pre e v K', pre ++ [e] <+: es → (K.after pre).call e = .ok (v, K') →
      ∀ f, (K.after pre).written? e = some f → f.keepsHeader := by
  have hstep : ∀ pre e v K', pre ++ [e] <+: es → (K.after pre).call e = .ok (v, K') →
      ((K.after pre).Lossless K' e v ↔
        ∀ f, (K.after pre).written? e = some f → f.keepsHeader) := by
    intro pre e v K' hp hc
    have he : e ∈ es := hp.subset (by simp)
    exact lossless_iff (keys_of_after (hk e he) pre) (hd e he) (hr pre e hp) hc
  exact forall₄_congr fun pre e v K' => forall₂_congr fun hp hc => hstep pre e v K' hp hc

/-- Two nodes that have just been made over an empty directory. -/
def newcomers : Cluster Bool where
  machines b :=
    .start ⟨Fleet.newcomer (if b then "n1" else "n0"), .ofFiles (.empty [] 0) ⟨fun _ => 0, 0⟩⟩
  world := .ofFiles (.empty [] 0) ⟨fun _ => 0, 0⟩

theorem keys_newcomers {e : Bool × PropertyCall} (hn : e.2.level = 0) (l : CompiledLevel)
    (hl : newcomers.level? e = some l) : l.keys = none := by
  have hnone : ∀ b, ((newcomers.machines b).host.node.compiled.levels[0]?).bind (·.keys) = none :=
    fun b => by cases b <;> rfl
  rw [level?, hn] at hl
  have h := hnone e.1
  rw [hl] at h
  exact h

theorem readsBack_of_zipIdx {es : List (Bool × PropertyCall)}
    (h : es.zipIdx.all (fun e =>
      ((newcomers.after (es.take e.2)).written? e.1).all (·.readsBack)) = true)
    (pre : List (Bool × PropertyCall)) (e : Bool × PropertyCall) (hp : pre ++ [e] <+: es)
    (f : DataFile) (hf : (newcomers.after pre).written? e = some f) : f.ReadsBack := by
  have hall := of_zipIdx (P := fun pre e => ((newcomers.after pre).written? e).all (·.readsBack)) h hp
  rw [hf, Option.all_some] at hall
  exact .of_readsBack hall

/-- Each node writes a key; the first one then removes what it has never seen, and the second one
what is gone. -/
def relay : List (Bool × PropertyCall) :=
  [(true, .set "ntp" "servers" (.array [.string "a", .string "b"]) 0),
    (false, .set "ssh" "port" (.integer 22) 0), (true, .remove "ssh" "port" 0),
    (false, .remove "ssh" "port" 0)]

set_option maxRecDepth 10000 in
theorem relay_lossless_iff :
    (∀ pre e v K', pre ++ [e] <+: relay → (newcomers.after pre).call e = .ok (v, K') →
      (newcomers.after pre).Lossless K' e v) ↔
    ∀ pre e v K', pre ++ [e] <+: relay → (newcomers.after pre).call e = .ok (v, K') →
      ∀ f, (newcomers.after pre).written? e = some f → f.keepsHeader := by
  have hlevel : ∀ e ∈ relay, e.2.level = 0 := by decide
  exact after_lossless_iff (fun e he => keys_newcomers (hlevel e he)) (by decide)
    (readsBack_of_zipIdx (by decide +kernel))

/-- A key that starts with a blank that is none to YAML, and then like a comment. -/
def disguised : Bool × PropertyCall := (false, .set "\u00a0#x" "p" (.integer 1) 0)

set_option maxRecDepth 10000 in
/-- The first key that is written is read as the header of the file. -/
theorem disguised_not_lossless : (∀ l, newcomers.level? disguised = some l → l.keys = none) ∧
    disguised.2.isData = true ∧
    (∀ f, newcomers.written? disguised = some f → f.ReadsBack) ∧
    ∃ v K', newcomers.call disguised = .ok (v, K') ∧ ¬newcomers.Lossless K' disguised v := by
  have hread : (newcomers.written? disguised).all (·.readsBack) = true := by decide +kernel
  have hopens : (newcomers.written? disguised).any (DataFile.opensWithComment ·.data) = true := by
    decide +kernel
  have hcall : (newcomers.call disguised).isOk = true := by decide +kernel
  have hkeys := keys_newcomers (e := disguised) rfl
  have hback : ∀ f, newcomers.written? disguised = some f → f.ReadsBack := fun f hf => by
    rw [hf] at hread
    exact .of_readsBack hread
  cases hc : newcomers.call disguised with
  | error err =>
    rw [hc] at hcall
    exact absurd hcall (by simp [Except.isOk, Except.toBool])
  | ok r =>
    refine ⟨hkeys, rfl, hback, r.1, r.2, rfl, fun hl => ?_⟩
    obtain ⟨f, hf, hcomment⟩ := (Option.any_eq_true _ _).mp hopens
    have hkeeps := (lossless_iff hkeys rfl hback hc).mp hl f hf
    exact absurd hcomment (by simp [hkeeps.2])

end Cluster
end Cascade
