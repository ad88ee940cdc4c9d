import Cascade.Proofs.Node.ClassLists
import Cascade.Proofs.Node.Writes
/-!
What becomes of the caches of a node when overrides are written. A write forgets the class it is
about and the classes that one inherits from, but no class that depends on it. So a node shows what
a node made anew would show exactly as long as its writes change nothing for the classes that they
leave in the cache.
-/
namespace Cascade

namespace Machine

def after (m : Machine Host) (calls : List NodeCall) : Machine Host :=
  calls.foldl (fun m c => c.run m) m

theorem after_snoc (m : Machine Host) (calls : List NodeCall) (c : NodeCall) :
    m.after (calls ++ [c]) = c.run (m.after calls) := by
  simp [after]

/-- A node made anew over the same files, with the same facts, hierarchy and loader. -/
def reopen (m : Machine Host) : Except HierarchyError (Machine Host) := do
  let n := m.host.node
  let node ← Node.create m.host.world.files n.identity.certname n.facts n.hierarchy n.loader
  return .start ⟨node, m.host.world⟩

/-- What a node made anew shows of a class. -/
def anew (m : Machine Host) (name : String) :
    Except HierarchyError (Except Fault (Option Instance)) :=
  m.reopen.map fun f => f.shows name

/-- Of every class the node shows what a node made anew would show. -/
def UpToDate (m : Machine Host) : Prop := ∀ name, m.anew name = .ok (m.shows name)

/-- The loader always gives the same definitions, and no class needs itself. -/
structure Orderly (load : DefinitionKind → String → Except LoadError (Option Definition))
    (m : Machine Host) : Prop where
  steady : m.host.node.loader.Steady m.host.world
  load : m.host.library.load = load
  settles : ∀ name, m.host.library.answer depth name ≠ .error .exhausted

/-- The caches are right by all that resolutions depend on now. -/
def Faithful (m : Machine Host) : Prop := m.Coherent m.host.library depth

/-- A node that shows only what is so. -/
structure Sound (m : Machine Host) : Prop where
  faithful : m.Faithful
  numbered : m.Numbered
  inStep : m.InStep

end Machine

theorem SingleFlight.get?_eq_some {θ κ ν ε : Type} [DecidableEq κ] {c : SingleFlight θ κ ν ε}
    {key : κ} {v : ν} : c.get? key = some v ↔ c.slots.get? key = some (.ready v) := by
  unfold get?
  split <;> simp_all

/-- A node that has just been made. -/
theorem Machine.coherent_of_create {files : Files} {certname : String} {facts : Facts}
    {hierarchy : Hierarchy} {loader : Loader} {node : Node} {world : World}
    (h : Node.create files certname facts hierarchy loader = .ok node)
    (hs : loader.Steady world) (depth : Nat) :
    Machine.Coherent (Host.library ⟨node, world⟩) depth (.start ⟨node, world⟩) := by
  obtain ⟨compiled, -, rfl⟩ := Node.exists_of_create h
  exact ⟨hs, rfl, fun _ _ h => absurd h (by simp [Machine.start, SingleFlight.empty]),
    fun _ _ h => absurd h (by simp [Machine.start, SingleFlight.empty]),
    fun _ _ h => absurd h (by simp [Machine.start, SingleFlight.empty]),
    fun _ _ h => absurd h (by simp [Machine.start, SingleFlight.empty])⟩

namespace Machine

variable {m m' : Machine Host} {name : String} {c : NodeCall}
  {load : DefinitionKind → String → Except LoadError (Option Definition)}

theorem numbered_start (h : Host) : (start h).Numbered := by
  intro i hi
  simp [instance?, start] at hi

theorem exists_of_reopen {f : Machine Host} (h : m.reopen = .ok f) :
    ∃ node, Node.create m.host.world.files m.host.node.identity.certname m.host.node.facts
      m.host.node.hierarchy m.host.node.loader = .ok node ∧ f = .start ⟨node, m.host.world⟩ := by
  obtain ⟨node, hc, h⟩ := bind_eq_ok.mp h
  exact ⟨node, hc, (Except.ok.inj h).symm⟩

/-- Resolutions for a node made anew depend on the same as those for one in step with its files. -/
theorem InStep.exists_reopen (h : m.InStep) :
    ∃ f, m.reopen = .ok f ∧ f.host.library = m.host.library := by
  unfold reopen Node.create
  simp only [h.identity, h.bound, Bind.bind, Except.bind, pure, Except.pure]
  exact ⟨_, rfl, rfl⟩

/-- A node made anew shows what is found without caches. -/
theorem Orderly.anew (ho : m.Orderly load) (h : m.InStep) (name : String) :
    m.anew name = .ok (m.host.library.answer depth name) := by
  obtain ⟨f, hf, hlibrary⟩ := h.exists_reopen
  obtain ⟨node, hnode, rfl⟩ := exists_of_reopen hf
  have hcoherent := coherent_of_create hnode ho.steady depth
  replace hcoherent := hlibrary ▸ hcoherent
  rw [Machine.anew, hf]
  exact congrArg Except.ok (hcoherent.resolve (numbered_start _) (ho.settles name)).1

theorem Sound.of_new (hnew : m.reopen = .ok m)
    (hapart : (m.host.node.compiled.levels.map (·.path)).Nodup)
    (hs : m.host.node.loader.Steady m.host.world) : m.Sound := by
  obtain ⟨node, hnode, hm⟩ := exists_of_reopen hnew
  obtain ⟨compiled, hcompiled, hnode'⟩ := Node.exists_of_create hnode
  have hhost : m.host.node = _ := (congrArg (·.host.node) hm).trans hnode'
  have hidentity : m.host.node.identity = Identity.ofCertname m.host.node.identity.certname :=
    congrArg Node.identity hhost
  have hsame : m.host.node.compiled = compiled := congrArg Node.compiled hhost
  refine ⟨?_, ?_, hidentity.symm, ?_, hapart⟩
  · rw [hm]
    exact coherent_of_create hnode hs depth
  · rw [hm]
    exact numbered_start _
  · rw [hsame, hidentity]
    exact hcompiled

/-- A sound node is up to date. -/
theorem Sound.upToDate (h : m.Sound) (ho : m.Orderly load) : m.UpToDate := by
  intro name
  rw [ho.anew h.inStep, (Coherent.resolve h.faithful h.numbered (ho.settles name)).1]

theorem Coherent.answer_of_ready {L : Library} {i : Nat} (h : m.Coherent L depth)
    (hfound : L.answer depth name ≠ .error .exhausted)
    (hi : m.host.node.classes.slots.get? name = some (.ready i)) :
    L.answer depth name = .ok (m.view? i) := by
  obtain ⟨-, n, hn⟩ := h.ready name i hi
  have hne : L.answer n name ≠ .error .exhausted := by
    rw [hn]
    simp
  exact (Library.answer_unique hfound hne).trans hn

/-- All that a write may spoil are the classes that it leaves in the cache. -/
theorem Forgets.faithful (hf : m.Forgets m') (h : m.Faithful) (ho : m.Orderly load)
    (ho' : m'.Orderly load)
    (hready : ∀ k i, m'.host.node.classes.slots.get? k = some (.ready i) →
      m'.host.library.answer depth k = .ok (m'.view? i)) :
    m'.Faithful where
  steady := ho'.steady
  library := rfl
  key k s hk := h.key k s (hf.classes k s hk)
  ready k i hk := by
    refine ⟨?_, depth, hready k i hk⟩
    rw [hf.instances]
    exact (h.ready k i (hf.classes k _ hk)).1
  loading k f hk := absurd (h.loading k f (hf.classes k _ hk)) (ho.settles k)
  function k f hk := by
    rw [hf.functions] at hk
    obtain ⟨v, hv, hfind⟩ := h.function k f hk
    refine ⟨v, hv, ?_⟩
    rw [← hfind, Library.find, Library.find, ho.load, ho'.load]

/-- What is shown from the cache after a write tells whether the cache is right. -/
theorem Forgets.faithful_of_upToDate (hf : m.Forgets m') (h : m.Faithful) (h' : m'.InStep)
    (ho : m.Orderly load) (ho' : m'.Orderly load) (hup : m'.UpToDate) : m'.Faithful := by
  refine hf.faithful h ho ho' fun k i hk => ?_
  have hkey : Name.normalize k = k := h.key k _ (hf.classes k _ hk)
  have hanew := hup k
  rw [ho'.anew h', shows_of_ready (hkey.symm ▸ hk)] at hanew
  exact Except.ok.inj hanew

/-- What a write leaves in the caches is right if and only if the write changes nothing for it. -/
theorem Forgets.faithful_iff (hf : m.Forgets m') (h : m.Sound) (h' : m'.InStep)
    (ho : m.Orderly load) (ho' : m'.Orderly load) :
    m'.Faithful ↔
      ∀ name, (m'.host.node.classes.get? name).isSome → m'.anew name = m.anew name := by
  have hanswer : ∀ {k i}, m'.host.node.classes.slots.get? k = some (.ready i) →
      m.host.library.answer depth k = .ok (m'.view? i) := by
    intro k i hk
    rw [hf.view?]
    exact Coherent.answer_of_ready h.faithful (ho.settles k) (hf.classes k _ hk)
  constructor
  · intro hfaithful name hname
    obtain ⟨i, hi⟩ := Option.isSome_iff_exists.mp hname
    have hslot := SingleFlight.get?_eq_some.mp hi
    rw [ho.anew h.inStep, ho'.anew h', hanswer hslot,
      Coherent.answer_of_ready hfaithful (ho'.settles name) hslot]
  · intro hsame
    refine hf.faithful h.faithful ho ho' fun k i hk => ?_
    have hk' := hsame k (Option.isSome_iff_exists.mpr ⟨i, SingleFlight.get?_eq_some.mpr hk⟩)
    rw [ho.anew h.inStep, ho'.anew h'] at hk'
    rw [Except.ok.inj hk', hanswer hk]

/-- A node that is asked for a class stays sound. -/
theorem Sound.resolve (h : m.Sound) (ho : m.Orderly load)
    (ht : (NodeCall.resolve name).Tidy m) : (m.resolve name).2.Sound := by
  obtain ⟨-, hholds, hnumbered, honward⟩ := Coherent.resolve h.faithful h.numbered (ho.settles name)
  refine ⟨?_, hnumbered, h.inStep.onward honward fun p hp => ht.apart p hp (by simp [NodeCall.path?,
    NodeCall.level?])⟩
  rw [Faithful, hholds.library]
  exact hholds

variable {calls : List NodeCall}

/-- Through a run of calls a node is sound at every point if its writes keep its caches right. -/
theorem sound_after (h : m.Sound) (ho : ∀ pre, pre <+: calls → (m.after pre).Orderly load)
    (ht : ∀ pre c, pre ++ [c] <+: calls → c.Tidy (m.after pre))
    (hwrites : ∀ pre c, pre ++ [c] <+: calls → c.isWrite = true → (m.after pre).Sound →
      (m.after (pre ++ [c])).InStep → (m.after (pre ++ [c])).Faithful)
    {pre : List NodeCall} (hp : pre <+: calls) : (m.after pre).Sound := by
  induction pre using List.reverseRecOn with
  | nil => exact h
  | append_singleton pre c ih =>
    have hpre := (List.prefix_append pre [c]).trans hp
    have hc := ih hpre
    cases hw : c.isWrite with
    | false =>
      cases c with
      | resolve name =>
        rw [after_snoc]
        exact hc.resolve (ho pre hpre) (ht pre _ hp)
      | setProperty | removeProperty =>
        exact absurd hw (by simp [NodeCall.isWrite, NodeCall.level?])
    | true =>
      have hin : (m.after (pre ++ [c])).InStep := by
        rw [after_snoc]
        exact hc.inStep.write (ht pre c hp) hw
      refine ⟨hwrites pre c hp hw hc hin, ?_, hin⟩
      rw [after_snoc]
      exact (forgets_run hw _).numbered hc.numbered

/-- Through a run of calls on a node that has just been made, it is up to date at every point if and
only if each write changes nothing for the classes that it leaves in the cache. -/
theorem upToDate_iff (hnew : m.reopen = .ok m)
    (hapart : (m.host.node.compiled.levels.map (·.path)).Nodup)
    (ho : ∀ pre, pre <+: calls → (m.after pre).Orderly load)
    (ht : ∀ pre c, pre ++ [c] <+: calls → c.Tidy (m.after pre)) :
    (∀ pre, pre <+: calls → (m.after pre).UpToDate) ↔
      ∀ pre c, pre ++ [c] <+: calls → c.isWrite = true →
        ∀ name, ((m.after (pre ++ [c])).host.node.classes.get? name).isSome →
          (m.after (pre ++ [c])).anew name = (m.after pre).anew name := by
  have hstart : m.Sound := .of_new hnew hapart (ho [] List.nil_prefix).steady
  have hforgets : ∀ {pre c}, c.isWrite = true → (m.after pre).Forgets (m.after (pre ++ [c])) := by
    intro pre c hw
    rw [after_snoc]
    exact forgets_run hw _
  constructor
  · intro hup
    have hwrites : ∀ pre c, pre ++ [c] <+: calls → c.isWrite = true → (m.after pre).Sound →
        (m.after (pre ++ [c])).InStep → (m.after (pre ++ [c])).Faithful := by
      intro pre c hp hw hc hin
      have hpre := (List.prefix_append pre [c]).trans hp
      exact (hforgets hw).faithful_of_upToDate hc.faithful hin (ho pre hpre) (ho _ hp) (hup _ hp)
    intro pre c hp hw
    have hpre := (List.prefix_append pre [c]).trans hp
    have hc := sound_after hstart ho ht hwrites hpre
    have hc' := sound_after hstart ho ht hwrites hp
    exact ((hforgets hw).faithful_iff hc hc'.inStep (ho pre hpre) (ho _ hp)).mp hc'.faithful
  · intro hsame pre hp
    have hwrites : ∀ pre c, pre ++ [c] <+: calls → c.isWrite = true → (m.after pre).Sound →
        (m.after (pre ++ [c])).InStep → (m.after (pre ++ [c])).Faithful := by
      intro pre c hp hw hc hin
      have hpre := (List.prefix_append pre [c]).trans hp
      exact ((hforgets hw).faithful_iff hc hin (ho pre hpre) (ho _ hp)).mpr (hsame pre c hp hw)
    exact (sound_after hstart ho ht hwrites hp).upToDate (ho pre hp)

/-- A node whose artifacts are in memory is orderly if there is an answer for each of them. -/
theorem orderly_of_shelf {s : Shelf} {n : Nat} (hloader : m.host.node.loader = .shelf)
    (hshelf : m.host.world.shelf.artifacts = s.artifacts) (hn : n < depth)
    (hanswer : ∀ k ∈ s.artifacts.keys, m.host.library.answer (n + 1) k ≠ .error .exhausted) :
    m.Orderly (Loader.loadFromShelf s) := by
  have hload : m.host.library.load = Loader.loadFromShelf s := by
    funext kind name
    simp only [Host.library, hloader, Loader.load, Loader.loadFromShelf, hshelf]
  refine ⟨hloader ▸ Loader.steady_shelf _, hload, fun name => ?_⟩
  rw [← Library.answer_normalize]
  by_cases hk : Name.normalize name ∈ s.artifacts.keys
  · rw [Library.answer_mono hn (hanswer _ hk)]
    exact hanswer _ hk
  · have hnone : s.artifacts.get? (Name.foldCase (Name.normalize name)) = none := by
      rw [Name.foldCase_normalize, ← Option.not_isSome_iff_eq_none]
      intro hs
      obtain ⟨artifact, ha⟩ := Option.isSome_iff_exists.mp hs
      exact hk (Table.mem_keys_of_get? _ ha)
    have hfind : m.host.library.find .hostClass (Name.normalize (Name.normalize name)) =
        .error (.notFound .hostClass (Name.normalize name)) := by
      rw [Name.normalize_normalize, Library.find, hload, Loader.loadFromShelf, hnone]
      rfl
    change Except.map _ ((m.host.library.resolveClass _ (Name.normalize name)).run _).1 ≠ _
    rw [Library.run_resolveClass_error hfind]
    simp [Except.map]

def baseText : String :=
  "\x7b\"^\":[\"class\",\x7b\"#\":[\"name\",\"base\",\"params\"," ++
  "\x7b\"#\":[\"p\",\x7b\"#\":[\"value\",\"old\"]\x7d]\x7d,\"body\",[]]\x7d]\x7d"

def childText : String :=
  "\x7b\"^\":[\"class\",\x7b\"#\":[\"name\",\"child\",\"parent\",\"base\"," ++
  "\"params\",\x7b\"#\":[]\x7d,\"body\",[\x7b\"^\":[\"=\",\x7b\"^\":" ++
  "[\"$\",\"a\"]\x7d,\x7b\"^\":[\"$\",\"p\"]\x7d]\x7d]]\x7d]\x7d"

/-- The class `base` has a parameter `p`, and `child` inherits it and keeps its value in `a`. -/
def twoClasses : Shelf := ⟨[("base", .ok baseText), ("child", .ok childText)], []⟩

/-- A node that has just been made, with no data. -/
def unwritten : Machine Host :=
  .start ⟨Fleet.newcomer "n0",
    { World.ofFiles (.empty [] 0) ⟨fun _ => 0, 0⟩ with shelf := twoClasses }⟩

/-- A class is asked for, and then a parameter that it inherits is written. -/
def overriding : List NodeCall := [.resolve "child", .setProperty "base" "p" (.string "new") 0]

theorem unwritten_new : unwritten.reopen = .ok unwritten := rfl

def isShelf : Loader → Bool
  | .shelf => true
  | _ => false

def settled : Except Fault (Option Instance) → Bool
  | .error .exhausted => false
  | _ => true

set_option maxRecDepth 10000 in
theorem overriding_orderly : ∀ pre, pre <+: overriding →
    (unwritten.after pre).Orderly (Loader.loadFromShelf twoClasses) := by
  have hall : ∀ pre ∈ overriding.inits,
      isShelf (unwritten.after pre).host.node.loader = true ∧
      (unwritten.after pre).host.world.shelf.artifacts = twoClasses.artifacts ∧
      ∀ k ∈ twoClasses.artifacts.keys,
        settled ((unwritten.after pre).host.library.answer 2 k) = true := by decide +kernel
  intro pre hp
  obtain ⟨hloader, hshelf, hanswer⟩ := hall pre ((List.mem_inits pre overriding).mpr hp)
  refine orderly_of_shelf (n := 1) ?_ hshelf (by simp [depth, Node.depth]) ?_
  · generalize (unwritten.after pre).host.node.loader = l at hloader
    cases l with
    | shelf => rfl
    | directory => exact absurd hloader (by simp [isShelf])
  · intro k hk he
    have h := hanswer k hk
    rw [he] at h
    exact absurd h (by simp [settled])

/-- What a file holds, with what of it is text. -/
def outline (f : DataFile) : String × String × List (String × Option String) :=
  (f.path, f.header, f.data.map fun e => (e.1, e.2.asString?))

theorem data_eq_of_texts {data : Table String Value} {texts : List (String × String)}
    (h : data.map (fun e => (e.1, e.2.asString?)) = texts.map fun e => (e.1, some e.2)) :
    data = texts.map fun e => (e.1, .string e.2) := by
  induction data generalizing texts with
  | nil =>
    obtain rfl : texts = [] := by simpa using h
    rfl
  | cons e data ih =>
    obtain ⟨key, v⟩ := e
    cases texts with
    | nil => simp at h
    | cons t texts =>
      obtain ⟨key', s⟩ := t
      simp only [List.map_cons, List.cons.injEq, Prod.mk.injEq] at h ⊢
      obtain ⟨⟨rfl, hv⟩, hrest⟩ := h
      refine ⟨⟨rfl, ?_⟩, ih hrest⟩
      cases v <;> simp_all [Value.asString?]

/-- The data file that the override is written to. -/
def written : DataFile := ⟨"data/common.yaml", "", [("base::p", .string "new")]⟩

theorem eq_written {f : DataFile}
    (h : outline f = ("data/common.yaml", "", [("base::p", some "new")])) : f = written := by
  obtain ⟨path, header, data⟩ := f
  simp only [outline, Prod.mk.injEq] at h
  obtain ⟨rfl, rfl, hdata⟩ := h
  have hlisted := data_eq_of_texts (show _ = [("base::p", "new")].map _ from hdata)
  exact congrArg (DataFile.mk _ _) hlisted

theorem parse_written : DataFile.parse written.path written.text = .ok written := by
  have h : (DataFile.parse written.path written.text).toOption.map outline =
      some ("data/common.yaml", "", [("base::p", some "new")]) := by decide +kernel
  cases hp : DataFile.parse written.path written.text with
  | error e => simp [hp, Except.toOption] at h
  | ok f => exact congrArg Except.ok (eq_written (by simpa [hp, Except.toOption] using h))

set_option maxRecDepth 10000 in
theorem resolve_tidy : (NodeCall.resolve "child").Tidy (unwritten.after []) := by
  have hsame : ∀ p ∈ (unwritten.after []).host.node.dataPaths,
      ((NodeCall.resolve "child").run (unwritten.after [])).host.world.files.readOptional p =
        (unwritten.after []).host.world.files.readOptional p := by decide +kernel
  refine ⟨fun p hp _ => DataFile.open_congr (hsame p hp), ?_⟩
  intro n l f hn
  exact absurd hn (by simp [NodeCall.level?])

set_option maxRecDepth 10000 in
theorem setProperty_tidy : (NodeCall.setProperty "base" "p" (.string "new") 0).Tidy
    (unwritten.after [.resolve "child"]) := by
  obtain ⟨hpaths, hfile⟩ : (∀ p ∈ (unwritten.after [.resolve "child"]).host.node.dataPaths,
      (NodeCall.setProperty "base" "p" (.string "new") 0).path?
        (unwritten.after [.resolve "child"]) = some p) ∧
      (((NodeCall.setProperty "base" "p" (.string "new") 0).run
        (unwritten.after [.resolve "child"])).host.node.compiled.levels[0]?.bind (·.file)).map
          outline = some ("data/common.yaml", "", [("base::p", some "new")]) := by decide +kernel
  refine ⟨fun p hp hne => absurd (hpaths p hp) hne, ?_⟩
  intro n l f hn hl hf
  obtain rfl : 0 = n := by simpa [NodeCall.level?] using hn
  rw [hl, Option.bind_some, hf, Option.map_some] at hfile
  rw [eq_written (Option.some.inj hfile)]
  exact parse_written

theorem overriding_tidy : ∀ pre c, pre ++ [c] <+: overriding → c.Tidy (unwritten.after pre) := by
  intro pre c hp
  have hin := (List.mem_inits _ overriding).mpr hp
  simp only [overriding, List.inits, List.map_cons, List.map_nil, List.mem_cons,
    List.append_eq_nil_iff, List.cons_ne_nil, and_false, List.not_mem_nil, or_false,
    false_or] at hin
  rcases hin with h | h
  · obtain ⟨rfl, hc⟩ := List.append_inj' (h.trans (List.nil_append _).symm) rfl
    obtain rfl := List.singleton_inj.mp hc
    exact resolve_tidy
  · obtain ⟨rfl, hc⟩ := List.append_inj' (h.trans (List.singleton_append).symm) rfl
    obtain rfl := List.singleton_inj.mp hc
    exact setProperty_tidy

theorem overriding_upToDate_iff :
    (∀ pre, pre <+: overriding → (unwritten.after pre).UpToDate) ↔
      ∀ pre c, pre ++ [c] <+: overriding → c.isWrite = true →
        ∀ name, ((unwritten.after (pre ++ [c])).host.node.classes.get? name).isSome →
          (unwritten.after (pre ++ [c])).anew name = (unwritten.after pre).anew name :=
  upToDate_iff unwritten_new (by decide +kernel) overriding_orderly overriding_tidy

/-- The text that an instance keeps in `a`. -/
def textOf (r : Except Fault (Option Instance)) : Option String :=
  r.toOption.join.bind fun i => (i.value? "a").bind Value.asString?

set_option maxRecDepth 10000 in
/-- The class is still shown with the value that its parent had before the write. -/
theorem stale_override : unwritten.reopen = .ok unwritten ∧
    (unwritten.host.node.compiled.levels.map (·.path)).Nodup ∧
    (∀ pre, pre <+: overriding →
      (unwritten.after pre).Orderly (Loader.loadFromShelf twoClasses)) ∧
    (∀ pre c, pre ++ [c] <+: overriding → c.Tidy (unwritten.after pre)) ∧
    ¬(unwritten.after overriding).UpToDate := by
  refine ⟨unwritten_new, by decide +kernel, overriding_orderly, overriding_tidy, fun hup => ?_⟩
  have hold : textOf ((unwritten.after overriding).shows "child") = some "old" := by
    decide +kernel
  have hnew : ((unwritten.after overriding).anew "child").toOption.bind textOf = some "new" := by
    decide +kernel
  rw [hup "child"] at hnew
  simp [Except.toOption, hold] at hnew

end Machine

end Cascade
