import Cascade.Proofs.Node.Gathering
import Cascade.Proofs.SingleFlight.Graft
/-!
Variables that a class does not have itself. In its body such a variable is the property of the class
that it inherits from, if that has a value there, and a global otherwise. What the other class inherits
in its turn is not looked at, and a property without a value counts for nothing.
-/
namespace Cascade

open Relation

/-- A name that is not global is bare. -/
theorem Name.bare_of_not_isGlobal {name : String} (h : Name.isGlobal name = false) :
    Name.bare name = name := by
  have hnot : ∀ t, name.toList ≠ ':' :: ':' :: t := by
    intro t ht
    rw [isGlobal, Text.strip?_eq_some.mpr ht] at h
    exact absurd h nofun
  rw [bare, dropColons_of_not_colons hnot, String.ofList_toList]

/-- A name without `::` is not global, and it is bare. -/
theorem Name.unqualified {name : String} (h : Name.qualifier? name = none) :
    Name.isGlobal name = false ∧ Name.bare name = name := by
  have hsplit : Text.splitOnce [':', ':'] name.toList.reverse = none := by
    simpa [qualifier?, Text.rsplitOnce] using h
  have hglobal : Name.isGlobal name = false := by
    rw [isGlobal, Bool.eq_false_iff]
    intro hsome
    obtain ⟨t, ht⟩ := Option.isSome_iff_exists.mp hsome
    refine Text.splitOnce_ne_none t.reverse [':', ':'] [] ?_
    simpa [Text.strip?_eq_some.mp ht] using hsplit
  exact ⟨hglobal, Name.bare_of_not_isGlobal hglobal⟩

namespace Machine

variable {η : Type} {number : Nat} {d : Definition} {m m' : Machine η}

/-- There is an instance of a class with this definition. -/
def OfClass (number : Nat) (d : Definition) (m : Machine η) : Prop :=
  ∃ a, m.Has number a ∧ a.definition = d ∧ a.title = none

end Machine

/-- An evaluation in the body of a class leaves the instance one of its class. -/
theorem Resolver.Spares.upholds_class {η : Type} {Q : Course η} {r : Resolver η} (hr : r.Spares Q)
    (number copy : Nat) (d : Definition) :
    (r.within number copy).Upholds Instance.KeepsOutline (Machine.OfClass number d) := by
  have hspared {α : Type} {x : Act η α} (hx : Cascade.Spares Q ∅ x) :
      Maintains (Machine.OfClass number d) x := fun m ⟨a, ha, hd⟩ => ⟨a, (hx m).has ha, hd⟩
  exact
    { setCell := fun node s ⟨a, ha, hd⟩ => ⟨a, ⟨ha.lt, ha.instance?⟩, hd⟩
      setFrame := fun frame hs _ => absurd hs nofun
      update := fun {m number' change} hs hchange ⟨a, ha, hd, htitle⟩ => by
        obtain rfl := Scope.object.inj hs
        obtain ⟨hd', htitle'⟩ := hchange a
        exact ⟨change a, ha.updateInstance change, hd'.trans hd, htitle'.trans htitle⟩
      resolveClass := fun name => hspared (hr.resolveClass name)
      resolveFunction := fun name => hspared (hr.resolveFunction name)
      invoke := fun d args => hspared (hr.invoke d args)
      registerSource := fun name level ⟨a, ha, hd⟩ => ⟨a, ⟨ha.lt, ha.instance?⟩, hd⟩ }

/-- The class that an instance inherits from is resolved before anything else. -/
def Instance.inherit {η : Type} (r : Resolver η) (a : Instance) : Act η (Option Nat) :=
  match a.parent with
  | some parent => do return some (← r.resolveClass parent)
  | none => return none

theorem run_resolveInstance_inherit {η : Type} {r : Resolver η} {number : Nat} {a : Instance}
    {m : Machine η} (h : m.instance? number = some a) : (resolveInstance r number).run m =
      (do let _ ← a.inherit r
          resolveParams (r.within number a.copy) number a a.definition.params
          let _ ← evalStatements (r.within number a.copy) a.definition.body : Act η Unit).run m := by
  rw [run_resolveInstance h, instanceSteps, Instance.inherit]
  cases a.parent with
  | none => rfl
  | some parent =>
    simp only [bind_assoc, pure_bind]
    rfl

/-- The resolution of an instance has come to the evaluation of an expression in its body: the class it
inherits from has been resolved, then its parameters, then some of its statements, and in the next one
the evaluation has turned from part to part. -/
inductive Reaches {η : Type} (r : Resolver η) (number : Nat) (a : Instance) (m : Machine η) :
    Option Nat → Expr → Machine η → Prop
  | intro {parent? : Option Nat} {m₀ m₁ m₂ m' : Machine η} {before after : List Expr} {s e : Expr}
      {v : Value} : (a.inherit r).run m = (.ok parent?, m₀) →
      (resolveParams (r.within number a.copy) number a a.definition.params).run m₀ = (.ok (), m₁) →
      a.definition.body = before ++ s :: after →
      (evalSequence (r.within number a.copy) .undef before).run m₁ = (.ok v, m₂) →
      ReflTransGen (Turn (r.within number a.copy)) (s, m₂) (e, m') →
      Reaches r number a m parent? e m'

/-- Every node that the resolution evaluates for the first time after the parameters has been reached. -/
theorem Reaches.of_resolveInstance {η : Type} {Q : Course η} {r : Resolver η} {number k : Nat}
    {a : Instance} {m m₀ m₁ : Machine η} {parent? : Option Nat} (hr : r.Spares Q)
    (ha : m.instance? number = some a) (hinherit : (a.inherit r).run m = (.ok parent?, m₀))
    (hparams : (resolveParams (r.within number a.copy) number a a.definition.params).run m₀ =
      (.ok (), m₁))
    (hlt : a.copy < m₁.copies) (hbefore : m₁.cell a.copy k = .unresolved)
    (hafter : ((resolveInstance r number).run m).2.cell a.copy k ≠ .unresolved) :
    ∃ kind m', Reaches r number a m parent? (.node k kind) m' ∧ m'.cell a.copy k = .unresolved := by
  have hspares : (r.within number a.copy).resolver.Spares Q := hr
  have htouches : Touches a.copy k (evalSequence (r.within number a.copy) .undef
      a.definition.body) m₁ := by
    refine ⟨hlt, hbefore, ?_⟩
    rw [run_resolveInstance_inherit ha, run_bind, hinherit] at hafter
    simp only [run_bind, hparams] at hafter
    -- The statements are the last step, and how they end changes no cell.
    have hlast : ((evalStatements (r.within number a.copy) a.definition.body).run m₁).2.cell
        a.copy k ≠ .unresolved := by
      rcases hrun : (evalStatements (r.within number a.copy) a.definition.body).run m₁ with ⟨f | v, m'⟩
      · rwa [hrun] at hafter
      · rwa [hrun] at hafter
    rwa [evalStatements, run_settle] at hlast
  obtain ⟨before, s, after, v, m₂, hbody, hrun, htouch⟩ :=
    exists_touches_of_evalSequence hspares htouches
  obtain ⟨kind, m', hturns, hcell⟩ := htouch.exists_turns hspares
  exact ⟨kind, m', .intro hinherit hparams hbody hrun hturns, hcell⟩

namespace Machine

variable {Good : Compiled → Instance → Prop} {own : Set Part} {r : Resolver Host}
  {m m' : Machine Host} {name key : String} {i : Nat}

/-- A class that is in the cache, or under way with an instance that is shown. -/
def Holds (m : Machine Host) (key : String) (i : Nat) : Prop :=
  m.host.node.classes.slots.get? key = some (.ready i) ∨
    ∃ f, m.host.node.classes.slots.get? key = some (.loading f) ∧
      f < m.host.node.classes.flights.length ∧
      (m.host.node.classes.flights.get? f).bind (·.placeholder) = some i

theorem Holds.gathers (h : m.Holds key i) (hg : m.Gathers Good own m') : m'.Holds key i := by
  rcases h with hslot | ⟨f, hslot, hf, hshown⟩
  · exact .inl (hg.kept hslot)
  · refine .inr ⟨f, hg.kept hslot, hf.trans_le hg.flights_le, ?_⟩
    rw [hg.flight hf, hshown]

/-- It is what a request for the class is answered with. -/
theorem Holds.run_resolveClass (h : m.Holds (Name.normalize name) i) :
    (Node.resolveClass r name).run m = (.ok i, m) := by
  rcases h with hslot | ⟨f, hslot, -, hshown⟩
  · rw [Node.resolveClass, CacheOf.run_getOrLoad_ready (c := .classes) (fun _ => rfl) hslot]
  · have hshown : ((CacheOf.classes.get m.host.node).flights.get? f).bind (·.placeholder) = some i :=
      hshown
    rw [Node.resolveClass, CacheOf.run_getOrLoad_shown (c := .classes) (fun _ => rfl) hslot, hshown]

/-- And what a request has been answered with is held from then on. -/
theorem holds_of_resolveClass (hr : r.Gathers Good) (hmakes : r.Makes Good) (hn : m.Numbered)
    (hflights : Table.Counted m.host.node.classes.flights)
    (h : (Node.resolveClass r name).run m = (.ok i, m')) : m'.Holds (Name.normalize name) i := by
  cases hslot : m.host.node.classes.slots.get? (Name.normalize name) with
  | none =>
    have hready := (Node.exists_of_resolveClass hr hmakes hn hslot).2 i (congrArg Prod.fst h)
    rw [h] at hready
    exact .inl hready
  | some s =>
    cases s with
    | ready j =>
      rw [Node.resolveClass, CacheOf.run_getOrLoad_ready (c := .classes) (fun _ => rfl) hslot] at h
      obtain ⟨hi, rfl⟩ := Prod.mk.inj h
      obtain rfl := Except.ok.inj hi
      exact .inl hslot
    | loading f =>
      rw [Node.resolveClass, CacheOf.run_getOrLoad_shown (c := .classes) (fun _ => rfl) hslot] at h
      cases hshown : ((CacheOf.classes.get m.host.node).flights.get? f).bind (·.placeholder) with
      | none =>
        rw [hshown] at h
        cases (Prod.mk.inj h).1
      | some j =>
        rw [hshown] at h
        obtain ⟨hi, rfl⟩ := Prod.mk.inj h
        obtain rfl := Except.ok.inj hi
        obtain ⟨flight, hflight, -⟩ := Option.bind_eq_some_iff.mp hshown
        exact .inr ⟨f, hslot, hflights f (Option.isSome_of_eq_some hflight), hshown⟩

end Machine

/-- The variables of a class are its properties. -/
theorem Scope.ofInstance?_class {i : Instance} (h : i.title = none) (name : String) :
    ofInstance? i name = i.value? name := by
  unfold ofInstance?
  cases i.value? name with
  | some v => rfl
  | none => simp [h]

/-- A variable without `::` is looked for in the scope, then in the class that is inherited, and then
among the globals. -/
theorem run_lookupVariable {η : Type} {env : Env η} {name : String} {m : Machine η}
    {inherited : Option Value} (hq : Name.qualifier? name = none)
    (hparent : ∀ parent, env.scope.parentClass m = some parent →
      (env.classValue? parent name).run m = (.ok inherited, m))
    (hnone : env.scope.parentClass m = none → inherited = none) :
    (env.lookupVariable name).run m =
      (.ok ((env.scope.lookup m name <|> inherited <|>
        env.resolver.global? m.host name).getD .undef), m) := by
  obtain ⟨hglobal, hbare⟩ := Name.unqualified hq
  unfold Env.lookupVariable
  simp only [hbare, hq, hglobal, Bool.false_eq_true, if_false, run_bind, run_get]
  cases hlocal : env.scope.lookup m name with
  | some v => rfl
  | none =>
    simp only [run_bind, run_get]
    cases hclass : env.scope.parentClass m with
    | none =>
      obtain rfl := hnone hclass
      rfl
    | some parent =>
      simp only [run_bind, hparent parent hclass]
      cases inherited <;> rfl

theorem evalKind_variable {η : Type} (env : Env η) (node : NodeRef) (name : String) :
    evalKind env node (.variable name) = Eval.ofAct (env.lookupVariable name) := by
  rw [evalKind]
  rfl

/-- So it is when its node is evaluated for the first time. -/
theorem eval_variable {η : Type} {env : Env η} {id : Nat} {name : String} {m t : Machine η}
    (inherited : Option Value) (hcell : m.cell env.copy id = .unresolved)
    (ht : t = m.setCell env.copy id .resolving) (hq : Name.qualifier? name = none)
    (hparent : ∀ parent, env.scope.parentClass t = some parent →
      (env.classValue? parent name).run t = (.ok inherited, t))
    (hnone : env.scope.parentClass t = none → inherited = none) :
    ((eval env (.node id (.variable name))).run m).1 =
      .ok ((env.scope.lookup t name <|> inherited <|>
        env.resolver.global? t.host name).getD .undef) := by
  rw [eval, run_memo_unresolved hcell, ← ht, evalKind_variable, run_ofAct,
    run_lookupVariable hq hparent hnone]
  rfl

section Resolution

variable {Good : Compiled → Instance → Prop} {r : Resolver Host} {m m' : Machine Host} {number : Nat}
  {a : Instance} {parent? : Option Nat} {e : Expr}

theorem Resolver.Spares.inherit (hr : r.Spares Host.course) (a : Instance) :
    Cascade.Spares Host.course ∅ (a.inherit r) := by
  unfold Instance.inherit
  cases a.parent with
  | none => exact .pure _
  | some parent => exact .bind (hr.resolveClass parent) fun _ => .pure _

/-- Since the parent class has been resolved, the cache has only grown, and the instance is still one of
its class. -/
theorem Reaches.exists_inherited (h : Reaches r number a m parent? e m') (hr : r.Gathers Good)
    (hn : m.Numbered) (ha : m.Has number a) (htitle : a.title = none) :
    ∃ m₀, (a.inherit r).run m = (.ok parent?, m₀) ∧
      m₀.Gathers Good (Spot.owns ⟨.object number, a.copy⟩) m' ∧ m'.OfClass number a.definition := by
  obtain ⟨hinherit, hparams, hbody, hbefore, hturns⟩ := h
  rename_i m₀ m₁ m₂ before after s v
  have hsince := hr.spares.inherit a m
  rw [hinherit] at hsince
  have ha₀ : m₀.Has number a := hsince.has ha
  have hown : m₀.Owned (Spot.owns ⟨.object number, a.copy⟩) := by
    intro i hi
    obtain rfl : i = number := by simpa [Spot.owns, Scope.part] using hi
    exact ha₀.lt
  have hgathers := hr.upholds (s := ⟨.object number, a.copy⟩) (hsince.after.numbered hn) hown
  have hP : (r.within number a.copy).Upholds Instance.KeepsOutline fun t =>
      m₀.Gathers Good (Spot.owns ⟨.object number, a.copy⟩) t ∧ t.OfClass number a.definition :=
    (hgathers.mono fun _ _ => trivial).and (hr.spares.upholds_class number a.copy a.definition)
  have h₁ := hP.resolveParams rfl a a.definition.params m₀ ⟨.refl _ m₀, a, ha₀, rfl, htitle⟩
  rw [hparams] at h₁
  have h₂ := hP.evalSequence before .undef m₁ h₁
  rw [hbefore] at h₂
  exact ⟨m₀, hinherit, hP.turns hturns h₂⟩

/-- The class that is inherited goes on being held by the node. -/
theorem Reaches.holds (h : Reaches r number a m parent? e m') (hr : r.Gathers Good)
    (hn : m.Numbered) (ha : m.Has number a) (htitle : a.title = none) {parent : String}
    (hparent : a.parent = some parent)
    (hheld : ∀ j m₀, (r.resolveClass parent).run m = (.ok j, m₀) →
      m₀.Holds (Name.normalize parent) j) :
    ∃ j, parent? = some j ∧ m'.Holds (Name.normalize parent) j := by
  obtain ⟨m₀, hinherit, hgathers, -⟩ := h.exists_inherited hr hn ha htitle
  simp only [Instance.inherit, hparent] at hinherit
  obtain ⟨j, m₁, hrun, hpure⟩ := run_bind_eq_ok.mp hinherit
  obtain ⟨hsome, rfl⟩ := Prod.mk.inj hpure
  exact ⟨j, (Except.ok.inj hsome).symm, (hheld j m₁ hrun).gathers hgathers⟩

end Resolution

/-- Requests of a node let its cache grow, whatever they make. -/
theorem Node.resolver_makes_any (depth : Nat) : (Node.resolver depth).Makes fun _ _ => True := by
  intro m m' d host hm _ h
  obtain ⟨a, ha, -⟩ := shown_of_resolveInstance (Node.resolver_spares depth) hm
    (host.overrides depth m.copies d) h
  exact ⟨a, ha, trivial⟩

section Body

variable {depth number id : Nat} {m m' : Machine Host} {a : Instance} {parent? : Option Nat}
  {name : String}

/-- However the resolution of a class has come to a variable without `::` in its body, the variable is
the property of the class if that has a value then, else the property of the class that is inherited,
as the node holds it then, and else the global or `undef`. -/
theorem Reaches.variable_nearest
    (h : Reaches (Node.resolver (depth + 1)) number a m parent? (.node id (.variable name)) m')
    (hn : m.Numbered) (hflights : Table.Counted m.host.node.classes.flights)
    (ha : m.Has number a) (htitle : a.title = none) (hq : Name.qualifier? name = none)
    (hcell : m'.cell a.copy id = .unresolved) :
    (a.parent = none → parent? = none) ∧
    (∀ parent, a.parent = some parent → ∃ j, parent? = some j ∧
      ((Node.resolver (depth + 1)).resolveClass parent).run m' = (.ok j, m')) ∧
    ((eval ((Node.resolver (depth + 1)).within number a.copy) (.node id (.variable name))).run m').1 =
      .ok (((m'.instance? number).bind (·.value? name) <|>
        (parent?.bind m'.instance?).bind (·.value? name) <|>
        m'.host.node.global? name).getD .undef) := by
  have hr := Node.resolver_gathers Node.resolver_makes_any
  obtain ⟨m₀, hinherit, hgathers, b, hb, hd, hbtitle⟩ := h.exists_inherited (hr _) hn ha htitle
  have horphan : a.parent = none → parent? = none := by
    intro hnone
    simp only [Instance.inherit, hnone] at hinherit
    exact (Except.ok.inj (Prod.mk.inj hinherit).1).symm
  have hheld (parent : String) (hparent : a.parent = some parent) :
      ∃ j, parent? = some j ∧ m'.Holds (Name.normalize parent) j :=
    h.holds (hr _) hn ha htitle hparent fun j m₀ hrun =>
      Machine.holds_of_resolveClass (hr depth) (Node.resolver_makes_any depth) hn hflights hrun
  refine ⟨horphan, fun parent hparent => ?_, ?_⟩
  · obtain ⟨j, hj, hholds⟩ := hheld parent hparent
    exact ⟨j, hj, hholds.run_resolveClass⟩
  -- When the variable is looked up its own cell is being resolved, which changes no instance.
  · have hclass : (Scope.object number).parentClass (m'.setCell a.copy id .resolving) =
        a.parent := by
      change (m'.instance? number).bind _ = _
      rw [hb.instance?, Option.bind_some, Instance.parent, hd]
      rfl
    refine (eval_variable ((parent?.bind m'.instance?).bind (·.value? name)) hcell rfl hq
      (fun parent hparent => ?_) fun hnone => ?_).trans ?_
    · obtain ⟨j, rfl, hholds⟩ := hheld parent (hclass.symm.trans hparent)
      have hholds : (m'.setCell a.copy id .resolving).Holds (Name.normalize parent) j := hholds
      have hrun : ((Node.resolver (depth + 1)).resolveClass parent).run
          (m'.setCell a.copy id .resolving) = (.ok j, _) := hholds.run_resolveClass
      change (Env.classValue? ⟨Node.resolver (depth + 1), _, _⟩ parent name).run
        (m'.setCell a.copy id .resolving) = _
      rw [Env.classValue?, run_bind, hrun]
      rfl
    · rw [horphan (hclass.symm.trans hnone)]
      rfl
    · have hown : (Scope.object number).lookup (m'.setCell a.copy id .resolving) name =
          (m'.instance? number).bind (·.value? name) := by
        change (m'.instance? number).bind _ = _
        rw [hb.instance?, Option.bind_some, Option.bind_some, Scope.ofInstance?_class hbtitle]
      rw [← hown]
      rfl

end Body

namespace Machine

/-- The text of a class with a head and statements. -/
def classText (head body : String) : String :=
  "\x7b\"^\":[\"class\",\x7b\"#\":[" ++ head ++ ",\"body\",[" ++ body ++ "]]\x7d]\x7d"

def variableText (name : String) : String := "\x7b\"^\":[\"$\",\"" ++ name ++ "\"]\x7d"

def assignmentText (name value : String) : String :=
  "\x7b\"^\":[\"=\"," ++ variableText name ++ "," ++ value ++ "]\x7d"

/-- `far` has the variable `v`, `middle` inherits it and `leaf` inherits `middle`; `lame` inherits `far` too,
but has a variable `v` of its own, which fails. -/
def lineage : Shelf where
  artifacts :=
    [("far", .ok (classText "\"name\",\"far\"" (assignmentText "v" "\"far\""))),
      ("middle", .ok (classText "\"name\",\"middle\",\"parent\",\"far\"" "")),
      ("leaf", .ok (classText "\"name\",\"leaf\",\"parent\",\"middle\""
        (assignmentText "w" (variableText "v")))),
      ("lame", .ok (classText "\"name\",\"lame\",\"parent\",\"far\""
        (assignmentText "v" "\x7b\"^\":[\"call\",\x7b\"#\":[\"functor\",\"fail\"]\x7d]\x7d" ++ "," ++
          assignmentText "w" (variableText "v"))))]
  requests := []

/-- A node with these classes that has no data. -/
def descendants : Machine Host :=
  .start ⟨Fleet.newcomer "n0", { World.ofFiles (.empty [] 0) ⟨fun _ => 0, 0⟩ with
    shelf := lineage }⟩

/-- The instance that a request for a class has come to. -/
def answered (q : Except Fault Nat × Machine Host) : Option Instance :=
  match q.1 with
  | .ok i => q.2.instance? i
  | .error _ => none

/-- A class that inherits `far` and gives a variable of its own the value of `v`. -/
def heir : Definition where
  kind := .hostClass
  name := "heir"
  params := []
  parent := some "far"
  body := [.node 0 (.assignment (.node 1 (.variable "w")) (.node 2 (.variable "v")))]
  returns := none

/-- That node with an instance of the class that is not resolved yet. -/
def begun : Machine Host := descendants.withInstance heir none none

/-- What the class inherits comes first. -/
theorem inherit_heir {i : Nat} {m₀ : Machine Host}
    (h : ((Node.resolver 3).resolveClass "far").run begun = (.ok i, m₀)) :
    ((Instance.create heir none none 0).inherit (Node.resolver 3)).run begun = (.ok (some i), m₀) := by
  change ((Node.resolver 3).resolveClass "far" >>= fun i => pure (some i)).run begun = _
  rw [run_bind, h]
  rfl

/-- Then its statement is begun, which comes to the variable. -/
theorem reaches_variable {i : Nat} {m₀ : Machine Host}
    (h : ((Node.resolver 3).resolveClass "far").run begun = (.ok i, m₀))
    (hcell : m₀.cell 0 0 = .unresolved) :
    Reaches (Node.resolver 3) 0 (Instance.create heir none none 0) begun (some i)
      (.node 2 (.variable "v")) (m₀.setCell 0 0 .resolving) := by
  have hbefore : (evalSequence ((Node.resolver 3).within 0 0) .undef []).run m₀ =
      (.ok .undef, m₀) := by
    rw [evalSequence]
    rfl
  have hturn : Turn ((Node.resolver 3).within 0 0)
      (.node 0 (.assignment (.node 1 (.variable "w")) (.node 2 (.variable "v"))), m₀)
      (.node 2 (.variable "v"), m₀.setCell 0 0 .resolving) :=
    .part hcell (.nil (.ask _ fun _ => .stop) _)
  have hbody : heir.body = [] ++ heir.body := rfl
  exact .intro (inherit_heir h) rfl hbody hbefore (.single hturn)

set_option maxRecDepth 10000 in
/-- The variable of the class that is inherited is found. -/
theorem variable_of_far : ∃ m', Reaches (Node.resolver 3) 0 (Instance.create heir none none 0) begun
      (some 1) (.node 2 (.variable "v")) m' ∧
    ((eval ((Node.resolver 3).within 0 0) (.node 2 (.variable "v"))).run m').1 =
      .ok (.string "far") := by
  have hone : (((Node.resolver 3).resolveClass "far").run begun).1.toOption = some 1 := by
    decide +kernel
  have hfar : ((((Node.resolver 3).resolveClass "far").run begun).2.instance? 1).bind
      (fun a => (a.value? "v").bind Value.asString?) = some "far" := by decide +kernel
  have hsince := (Node.resolver_spares 3).resolveClass "far" begun
  rcases hrun : ((Node.resolver 3).resolveClass "far").run begun with ⟨f | i, m₀⟩
  · rw [hrun] at hone
    exact absurd hone nofun
  · rw [hrun] at hone hfar hsince
    obtain rfl : i = 1 := Option.some.inj hone
    have hn : begun.Numbered := (numbered_start _).withInstance
    have ha : begun.Has 0 (Instance.create heir none none 0) := ⟨by decide, rfl⟩
    have hcell (k : Nat) : m₀.cell 0 k = .unresolved :=
      hsince.after.cells 0 (by decide) (Set.notMem_empty _) k
    have hreach := reaches_variable hrun (hcell 0)
    have hvalue := (hreach.variable_nearest hn .nil ha rfl (by decide)
      ((Machine.cell_setCell ..).trans (hcell 2))).2.2
    have hown : ((m₀.setCell 0 0 .resolving).instance? 0).bind (·.value? "v") = none := by
      change (m₀.instance? 0).bind _ = none
      rw [(hsince.has ha).instance?]
      rfl
    obtain ⟨b, hb, hfar⟩ := Option.bind_eq_some_iff.mp hfar
    obtain ⟨v, hv, htext⟩ := Option.bind_eq_some_iff.mp hfar
    have hinherited : ((some 1).bind (m₀.setCell 0 0 .resolving).instance?).bind (·.value? "v") =
        some v := by
      change (m₀.instance? 1).bind _ = some v
      rw [hb]
      exact hv
    rw [hown, hinherited] at hvalue
    cases v with
    | string text => exact ⟨_, hreach, Option.some.inj htext ▸ hvalue⟩
    | _ => exact absurd htext nofun

theorem exists_of_any {α : Type} {o : Option α} {P : α → Prop} [DecidablePred P]
    (h : o.any (fun a => decide (P a)) = true) : ∃ a, o = some a ∧ P a := by
  obtain ⟨a, ha, hP⟩ := (Option.any_eq_true _ _).mp h
  exact ⟨a, ha, of_decide_eq_true hP⟩

set_option maxRecDepth 10000 in
/-- The variable `v` of `far` is not seen in `leaf`, although neither `leaf` nor `middle` has one. In `lame`
it is seen, although `lame` has one that failed. -/
theorem far_class_unseen :
    (∃ a, answered (descendants.resolve "leaf") = some a ∧ a.parent = some "middle" ∧
      (a.properties.get? "v").isNone = true ∧ (a.value? "w").map Value.isUndef = some true) ∧
    (∃ a, answered ((descendants.resolve "leaf").2.resolve "middle") = some a ∧
      a.parent = some "far" ∧ (a.properties.get? "v").isNone = true) ∧
    (∃ a, answered ((descendants.resolve "leaf").2.resolve "far") = some a ∧
      (a.value? "v").bind Value.asString? = some "far") ∧
    ∃ a, answered (descendants.resolve "lame") = some a ∧ a.parent = some "far" ∧
      (a.properties.get? "v").any (·.value.isNone) = true ∧
      (a.value? "w").bind Value.asString? = some "far" :=
  ⟨exists_of_any (by decide +kernel), exists_of_any (by decide +kernel),
    exists_of_any (by decide +kernel), exists_of_any (by decide +kernel)⟩

end Machine

end Cascade
