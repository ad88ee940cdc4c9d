import Cascade.Proofs.Eval.Uniform
/-!
Two evaluations of one definition, in two machines. The machine on the left has a host, say a node
with its caches; the one on the right has none and serves as the measure. Unless the right one runs
out of depth the left one follows it: both end the same way and leave alike what they work on.
-/
namespace Cascade

variable {η : Type}

/-- What has to hold of a machine with a host while evaluations go on. An instance is open as long
as the host does not hand it out, and only open instances change. -/
structure Guard (η : Type) where
  Holds : Machine η → Prop
  Open : η → Nat → Prop
  /-- How a machine may come out of a request. -/
  Passed : Machine η → Machine η → Prop
  holds_of_host {m m' : Machine η} : Holds m → m'.host = m.host →
    m.instances.length ≤ m'.instances.length →
    (∀ i, ¬Open m.host i → m'.instance? i = m.instance? i) → Holds m'
  passed_of_host {m m' : Machine η} : m'.host = m.host → Passed m m'
  passed_trans {m m' m'' : Machine η} : m.instances.length ≤ m'.instances.length →
    Passed m m' → Passed m' m'' → Passed m m''
  open_of_passed {m m' : Machine η} {i : Nat} : Passed m m' → i < m.instances.length →
    Open m.host i → Open m'.host i

/-- Nothing has to hold. -/
def Guard.free : Guard η where
  Holds _ := True
  Open _ _ := True
  Passed _ _ := True
  holds_of_host _ _ _ _ := trivial
  passed_of_host _ := trivial
  passed_trans _ _ _ := trivial
  open_of_passed _ _ _ := trivial

/-- Two machines before and after a request, which owns nothing of either. -/
structure Guard.Beyond (G : Guard η) (m m' : Machine η) (p p' : Machine Unit) : Prop where
  holds : G.Holds m'
  passed : G.Passed m m'
  left : m.After ∅ m'
  right : p.After ∅ p'

theorem Guard.Holds.beyond {G : Guard η} {m : Machine η} (h : G.Holds m) (p : Machine Unit) :
    G.Beyond m m p p :=
  ⟨h, G.passed_of_host rfl, .refl ∅ m, .refl ∅ p⟩

/-- A machine that a request can be made to, and one that it is measured by. -/
structure Guard.Ready (G : Guard η) (m : Machine η) (p : Machine Unit) : Prop where
  holds : G.Holds m
  left : m.Numbered
  right : p.Numbered

theorem Guard.Ready.beyond {G : Guard η} {m m' : Machine η} {p p' : Machine Unit}
    (h : G.Ready m p) (hb : G.Beyond m m' p p') : G.Ready m' p' :=
  ⟨hb.holds, hb.left.numbered h.left, hb.right.numbered h.right⟩

/-- What `r` answers is what `s` answers, unless that lacks depth. -/
structure Resolver.Follows (G : Guard η) (r : Resolver η) (s : Resolver Unit) : Prop where
  resolveClass {m : Machine η} {p : Machine Unit} (name : String) : G.Ready m p →
    ((s.resolveClass name).run p).1 ≠ .error .exhausted →
    ((r.resolveClass name).run m).1.map ((r.resolveClass name).run m).2.view? =
      ((s.resolveClass name).run p).1.map ((s.resolveClass name).run p).2.view? ∧
    G.Beyond m ((r.resolveClass name).run m).2 p ((s.resolveClass name).run p).2
  resolveFunction {m : Machine η} {p : Machine Unit} (name : String) : G.Ready m p →
    ((s.resolveFunction name).run p).1 ≠ .error .exhausted →
    ((r.resolveFunction name).run m).1 = ((s.resolveFunction name).run p).1 ∧
    G.Beyond m ((r.resolveFunction name).run m).2 p ((s.resolveFunction name).run p).2
  invoke {m : Machine η} {p : Machine Unit} (d : Definition) (args : List Value) : G.Ready m p →
    ((s.invoke d args).run p).1 ≠ .error .exhausted →
    ((r.invoke d args).run m).1 = ((s.invoke d args).run p).1 ∧
    G.Beyond m ((r.invoke d args).run m).2 p ((s.invoke d args).run p).2
  global? {m : Machine η} (name : String) : G.Holds m → r.global? m.host name = s.global? () name
  lookupGlobal {m : Machine η} (name : String) : G.Holds m →
    r.lookupGlobal m.host name = s.lookupGlobal () name
  registerSource {m : Machine η} (kind : SourceKind) (name : String) (level : Nat) : G.Holds m →
    G.Holds { m with host := r.registerSource kind name level m.host } ∧
    G.Passed m { m with host := r.registerSource kind name level m.host }

/-- Two evaluations, each at a spot of its own. -/
structure Link (η : Type) where
  guard : Guard η
  left : Spot
  right : Spot

namespace Link

/-- The scopes of both evaluations show them the same. -/
def SameScope (l : Link η) (m : Machine η) (p : Machine Unit) : Prop :=
  match l.left.scope, l.right.scope with
  | .frame, .frame => m.frame = p.frame
  | .object i, .object j => i < m.instances.length ∧ j < p.instances.length ∧
      l.guard.Open m.host i ∧ m.view? i = p.view? j
  | _, _ => False

structure Agree (l : Link η) (m : Machine η) (p : Machine Unit) : Prop where
  ready : l.guard.Ready m p
  left_lt : l.left.copy < m.copies
  right_lt : l.right.copy < p.copies
  cells : ∀ n, m.cell l.left.copy n = p.cell l.right.copy n
  scope : l.SameScope m p

variable {l : Link η} {m m' m'' : Machine η} {p p' p'' : Machine Unit}

/-- How far two machines that agree have come. -/
structure Along (l : Link η) (m m' : Machine η) (p p' : Machine Unit) : Prop where
  agree : l.Agree m' p'
  passed : l.guard.Passed m m'
  left : m.After l.left.owns m'
  right : p.After l.right.owns p'

theorem Agree.along (h : l.Agree m p) : l.Along m m p p :=
  ⟨h, l.guard.passed_of_host rfl, .refl _ m, .refl _ p⟩

theorem Along.trans (h : l.Along m m' p p') (h' : l.Along m' m'' p' p'') : l.Along m m'' p p'' :=
  ⟨h'.agree, l.guard.passed_trans h.left.length_le h.passed h'.passed, h.left.trans h'.left,
    h.right.trans h'.right⟩

/-- A request leaves what the evaluations own as it is. -/
theorem Agree.beyond (h : l.Agree m p) (hb : l.guard.Beyond m m' p p') : l.Along m m' p p' where
  agree :=
    { ready := h.ready.beyond hb
      left_lt := h.left_lt.trans_le hb.left.copies_le
      right_lt := h.right_lt.trans_le hb.right.copies_le
      cells n := by
        rw [hb.left.cells _ h.left_lt (Set.notMem_empty _),
          hb.right.cells _ h.right_lt (Set.notMem_empty _), h.cells n]
      scope := by
        have hs := h.scope
        unfold SameScope at hs ⊢
        split at hs
        · rw [hb.left.frame (Set.notMem_empty _), hb.right.frame (Set.notMem_empty _), hs]
        · obtain ⟨hi, hj, ho, hv⟩ := hs
          refine ⟨hi.trans_le hb.left.length_le, hj.trans_le hb.right.length_le,
            l.guard.open_of_passed hb.passed hi ho, ?_⟩
          rw [hb.left.view? hi (Set.notMem_empty _), hb.right.view? hj (Set.notMem_empty _), hv]
        · exact hs }
  passed := hb.passed
  left := hb.left.mono (Set.empty_subset _)
  right := hb.right.mono (Set.empty_subset _)

/-- Before and after a node is evaluated its cell changes on both sides. -/
theorem Agree.setCell (h : l.Agree m p) (node : Nat) (s : CellState) :
    l.Along m (m.setCell l.left.copy node s) p (p.setCell l.right.copy node s) where
  agree :=
    { ready := ⟨l.guard.holds_of_host h.ready.holds rfl le_rfl fun _ _ => rfl, h.ready.left,
        h.ready.right⟩
      left_lt := h.left_lt
      right_lt := h.right_lt
      cells n := by simp [h.cells]
      scope := h.scope }
  passed := l.guard.passed_of_host rfl
  left := m.after_setCell (by simp [Spot.owns]) node s
  right := p.after_setCell (by simp [Spot.owns]) node s

theorem Agree.bind_instance? (h : l.Agree m p) {α : Type} {f : Instance → Option α}
    (hf : ∀ a, f a.bare = f a) :
    (l.left.scope.instance? m).bind f = (l.right.scope.instance? p).bind f := by
  have hs := h.scope
  unfold SameScope at hs
  split at hs
  next hl hr => simp [Scope.instance?, hl, hr]
  next i j hl hr =>
    rw [hl, hr]
    simp only [Scope.instance?, ← Machine.bind_view? hf, hs.2.2.2]
  · exact hs.elim

theorem Agree.lookup (h : l.Agree m p) (name : String) :
    l.left.scope.lookup m name = l.right.scope.lookup p name := by
  have hs := h.scope
  have hi := h.bind_instance? (f := fun i => Scope.ofInstance? i name) fun _ => rfl
  unfold SameScope at hs
  split at hs
  next hl hr => simp [Scope.lookup, hl, hr, hs]
  next i j hl hr =>
    rw [hl, hr] at hi ⊢
    exact hi
  · exact hs.elim

theorem Agree.owner (h : l.Agree m p) : l.left.scope.owner m = l.right.scope.owner p := by
  have hi := h.bind_instance? (f := fun i => some i.name) fun _ => rfl
  rw [Scope.owner, Scope.owner, Option.map_eq_bind, Option.map_eq_bind]
  exact hi

theorem Agree.parentClass (h : l.Agree m p) :
    l.left.scope.parentClass m = l.right.scope.parentClass p :=
  h.bind_instance? fun _ => rfl

/-- Changing one's own instance. -/
theorem Agree.updateInstance (h : l.Agree m p) {i j : Nat} (hi : l.left.scope = .object i)
    (hj : l.right.scope = .object j) {change : Instance → Instance}
    (hc : ∀ a, (change a).bare = change a.bare) :
    l.Along m (m.updateInstance i change) p (p.updateInstance j change) := by
  have hs := h.scope
  simp only [SameScope, hi, hj] at hs
  obtain ⟨hlt, hlt', ho, hv⟩ := hs
  refine ⟨⟨⟨?_, h.ready.left.updateInstance i change, h.ready.right.updateInstance j change⟩,
    by simpa using h.left_lt, by simpa using h.right_lt, fun n => by simpa using h.cells n, ?_⟩,
    l.guard.passed_of_host (by simp), m.after_updateInstance (by simp [Spot.owns, hi, Scope.part]) _,
    p.after_updateInstance (by simp [Spot.owns, hj, Scope.part]) _⟩
  · refine l.guard.holds_of_host h.ready.holds (by simp) (by simp) fun k hk => ?_
    have hik : i ≠ k := by
      rintro rfl
      exact hk ho
    rw [Machine.instance?_updateInstance, if_neg hik]
  · simp only [SameScope, hi, hj]
    refine ⟨by simpa using hlt, by simpa using hlt', by simpa using ho, ?_⟩
    rw [Machine.view?_updateInstance hc, Machine.view?_updateInstance hc, hv]

theorem Agree.setFrame (h : l.Agree m p) (hl : l.left.scope = .frame) (hr : l.right.scope = .frame)
    (frame : Table String Value) :
    l.Along m { m with frame := frame } p { p with frame := frame } := by
  refine ⟨⟨⟨?_, h.ready.left, h.ready.right⟩, h.left_lt, h.right_lt, h.cells, ?_⟩,
    l.guard.passed_of_host rfl, m.after_frame (by simp [Spot.owns, hl, Scope.part]) _,
    p.after_frame (by simp [Spot.owns, hr, Scope.part]) _⟩
  · exact l.guard.holds_of_host h.ready.holds rfl le_rfl fun _ _ => rfl
  · simp [SameScope, hl, hr]

theorem Agree.frame_eq (h : l.Agree m p) (hl : l.left.scope = .frame)
    (hr : l.right.scope = .frame) : m.frame = p.frame := by
  have hs := h.scope
  simpa only [SameScope, hl, hr] using hs

variable {r : Resolver η} {s : Resolver Unit}

/-- Both look at the same, as far as evaluations can look. -/
theorem Agree.sight (h : l.Agree m p)
    (hglobal : ∀ name, r.global? m.host name = s.global? p.host name)
    (hlevel : ∀ name, r.lookupGlobal m.host name = s.lookupGlobal p.host name) :
    (l.left.env r).sight m = (l.right.env s).sight p := by
  have hlookup : l.left.scope.lookup m = l.right.scope.lookup p := funext h.lookup
  simp only [Env.sight, Spot.env, hlookup, h.owner, h.parentClass, funext hglobal,
    funext hlevel]

variable {ε ε' α β : Type} [Bounded ε] [Bounded ε']

/-- Where machines agree, `x` ends as `y` does, unless `y` lacks depth. -/
def Follows (l : Link η) (x : ExceptT ε (StateM (Machine η)) α)
    (y : ExceptT ε (StateM (Machine Unit)) α) : Prop :=
  ∀ ⦃m p⦄, l.Agree m p → (y.run p).1 ≠ .error Bounded.exhausted →
    (x.run m).1 = (y.run p).1 ∧ l.Along m (x.run m).2 p (y.run p).2

variable {x : ExceptT ε (StateM (Machine η)) α} {y : ExceptT ε (StateM (Machine Unit)) α}
  {f : α → ExceptT ε (StateM (Machine η)) β} {g : α → ExceptT ε (StateM (Machine Unit)) β}

theorem Follows.pure (a : α) : l.Follows (Pure.pure a : ExceptT ε (StateM (Machine η)) α)
    (Pure.pure a) :=
  fun _ _ h _ => ⟨rfl, h.along⟩

theorem Follows.throw (e : ε) : l.Follows (throw e : ExceptT ε (StateM (Machine η)) α) (throw e) :=
  fun _ _ h _ => ⟨rfl, h.along⟩

theorem Follows.bind (hx : l.Follows x y) (hf : ∀ a, l.Follows (f a) (g a)) :
    l.Follows (x >>= f) (y >>= g) := by
  intro m p h hne
  simp only [run_bind] at hne ⊢
  rcases hy : y.run p with ⟨e | b, p'⟩
  · have he : (y.run p).1 ≠ .error Bounded.exhausted := by
      rw [hy] at hne ⊢
      simpa using hne
    obtain ⟨hr, ha⟩ := hx h he
    rcases hm : x.run m with ⟨a, m'⟩
    rw [hm, hy] at hr ha
    obtain rfl : a = .error e := hr
    exact ⟨rfl, ha⟩
  · obtain ⟨hr, ha⟩ := hx h (by simp [hy])
    rcases hm : x.run m with ⟨a, m'⟩
    rw [hm, hy] at hr ha
    obtain rfl : a = .ok b := hr
    rw [hy] at hne
    obtain ⟨hr', ha'⟩ := hf b ha.agree hne
    exact ⟨hr', ha.trans ha'⟩

theorem Follows.ending {t : Except ε α → Except ε' β}
    (ht : t (.error Bounded.exhausted) = .error Bounded.exhausted) (hx : l.Follows x y) :
    l.Follows (Cascade.ending t x) (Cascade.ending t y) := by
  intro m p h hne
  have hy : (y.run p).1 ≠ .error Bounded.exhausted := by
    intro he
    exact hne ((congrArg t he).trans ht)
  obtain ⟨hr, ha⟩ := hx h hy
  exact ⟨congrArg t hr, ha⟩

/-- Both change their machines, each as the other does. -/
theorem Follows.modify {f : Machine η → Machine η} {g : Machine Unit → Machine Unit}
    (h : ∀ ⦃m p⦄, l.Agree m p → l.Along m (f m) p (g p)) :
    l.Follows (modify f : ExceptT ε (StateM (Machine η)) PUnit) (modify g) :=
  fun _ _ ha _ => ⟨rfl, h ha⟩

theorem Follows.memo {x : Eval η Value} {y : Eval Unit Value} (node : Nat) (hx : l.Follows x y) :
    l.Follows (Eval.memo l.left.copy node x) (Eval.memo l.right.copy node y) := by
  intro m p h hne
  rw [run_memo] at hne
  rw [run_memo, run_memo, h.cells node]
  rcases hc : (p.cell l.right.copy node).begin with ⟨_ | o, s⟩
  · simp only [hc] at hne ⊢
    have hs := h.setCell node s
    obtain ⟨hr, ha⟩ := hx hs.agree hne
    rw [hr]
    exact ⟨rfl, hs.trans (ha.trans (ha.agree.setCell node _))⟩
  · exact ⟨rfl, h.along⟩

/-- A request that is answered alike. -/
theorem Follows.of_beyond {x : Act η α} {y : Act Unit α}
    (h : ∀ ⦃m p⦄, l.guard.Ready m p → (y.run p).1 ≠ .error .exhausted →
      (x.run m).1 = (y.run p).1 ∧ l.guard.Beyond m (x.run m).2 p (y.run p).2) :
    l.Follows x y :=
  fun _ _ ha hne => ⟨(h ha.ready hne).1, ha.beyond (h ha.ready hne).2⟩

theorem follows_shown (hr : r.Follows l.guard s) (name : String) :
    l.Follows ((l.left.env r).shown name) ((l.right.env s).shown name) := by
  refine .of_beyond fun m p h hne => ?_
  rw [run_shown] at hne
  rw [run_shown, run_shown]
  exact hr.resolveClass name h (Fault.map_ne_exhausted.mp hne)

theorem follows_callFunction (hr : r.Follows l.guard s) (name : String)
    {x : Eval η (List Value)} {y : Eval Unit (List Value)} (hx : l.Follows x y) :
    l.Follows (callFunction (l.left.env r) name x) (callFunction (l.right.env s) name y) := by
  rw [callFunction_eq, callFunction_eq]
  refine .bind (.ending rfl (.of_beyond fun _ _ h hne => hr.resolveFunction name h hne)) fun
    | none => .throw _
    | some d => .bind hx fun args => .ending rfl (.ending rfl ?_)
  exact .of_beyond fun _ _ h hne => hr.invoke d args h hne

theorem follows_registerSource (hr : r.Follows l.guard s) (kind : SourceKind) (name : String)
    (level : Nat) : l.Follows
    (modify fun m => { m with host := r.registerSource kind name level m.host } : Act η PUnit)
    (modify fun p => { p with host := s.registerSource kind name level p.host }) :=
  .modify fun m p h => h.beyond ⟨(hr.registerSource kind name level h.ready.holds).1,
    (hr.registerSource kind name level h.ready.holds).2, .of_host ∅ m _, .of_host ∅ p _⟩

end Link

/-- An evaluation follows the same one elsewhere, if the requests it makes are answered alike. -/
theorem Uniform.follows {k : Scope.Kind} {ε α : Type} [Bounded ε] {x : Program ε α}
    (h : Uniform k x) {l : Link η} {r : Resolver η} {s : Resolver Unit}
    (hr : r.Follows l.guard s) (hleft : l.left.scope.kind = k) (hright : l.right.scope.kind = k) :
    l.Follows (x η (l.left.env r)) (x Unit (l.right.env s)) := by
  induction h with
  | pure a => exact .pure a
  | throw e _ => exact .throw e
  | bind _ _ hx hf => exact hx.bind hf
  | ending _ ht hx => exact hx.ending ((ht _).mpr rfl)
  | memo node _ hx => exact hx.memo node
  | look _ hf =>
    intro m p ha hne
    have hsight := ha.sight (hr.global? · ha.ready.holds) (hr.lookupGlobal · ha.ready.holds)
    rw [run_bind, run_get] at hne ⊢
    rw [run_bind, run_get]
    simp only [hsight] at hne ⊢
    exact hf _ ha hne
  | shown name => exact Link.follows_shown hr name
  | resolveFunction name => exact .of_beyond fun _ _ h hne => hr.resolveFunction name h hne
  | call name _ hx => exact Link.follows_callFunction hr name hx
  | registerSource name level => exact Link.follows_registerSource hr .property name level
  | setFrame name v hk =>
    have hl := Scope.eq_frame (hleft.trans hk)
    have hr := Scope.eq_frame (hright.trans hk)
    refine .modify fun m p ha => ?_
    rw [ha.frame_eq hl hr]
    exact ha.setFrame hl hr _
  | update change hk hc =>
    have hl := Scope.eq_object (hleft.trans hk)
    have hr := Scope.eq_object (hright.trans hk)
    exact .modify fun m p ha => ha.updateInstance hl hr hc
  | congr _ heq hx =>
    rw [heq η (l.left.env r) hleft, heq Unit (l.right.env s) hright]
    exact hx

end Cascade
