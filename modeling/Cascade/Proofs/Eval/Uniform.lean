import Cascade.Proofs.Eval.Machine
/-!
What evaluations are made of. An evaluation knows nothing of its host: it looks at its scope and at
globals, makes requests, changes what it owns, and joins such steps. So whatever holds of every step
and is kept when steps are joined holds of all evaluations, be it about one machine or about several
that evaluate the same side by side.
-/
namespace Cascade

/-- Kinds of failure that tell a lack of depth from all others. -/
class Bounded (ε : Type) where
  exhausted : ε

instance : Bounded Fault := ⟨.exhausted⟩

instance : Bounded Interrupt := ⟨.fault .exhausted⟩

theorem Fault.map_ne_exhausted {α β : Type} {o : Except Fault α} {f : α → β} :
    o.map f ≠ .error .exhausted ↔ o ≠ .error .exhausted := by
  rcases o with e | a <;> simp [Except.map]

/-- A lack of depth remains one, and nothing else becomes one. -/
def KeepsExhausted {ε ε' α β : Type} [Bounded ε] [Bounded ε'] (g : Except ε α → Except ε' β) : Prop :=
  ∀ o, g o = .error Bounded.exhausted ↔ o = .error Bounded.exhausted

section KeepsExhausted

variable {α : Type}

theorem keepsExhausted_ofAct :
    KeepsExhausted (Except.mapError .fault : Except Fault α → Except Interrupt α) := by
  rintro ((e | _) | a) <;> simp [Except.mapError, Bounded.exhausted]

theorem keepsExhausted_mapError (change : EvalError → EvalError) :
    KeepsExhausted (Except.mapError (Fault.map change) : Except Fault α → Except Fault α) := by
  rintro ((e | _) | a) <;> simp [Except.mapError, Fault.map, Bounded.exhausted]

theorem keepsExhausted_settled : KeepsExhausted settled := by
  rintro ((v | (e | _)) | v) <;> simp [settled, Bounded.exhausted]

theorem keepsExhausted_succeeded :
    KeepsExhausted (succeeded : Except Fault α → Except Fault Bool) := by
  rintro ((e | _) | a) <;> simp [succeeded, Bounded.exhausted]

end KeepsExhausted

/-- A program that can be run with any host. -/
abbrev Program (ε α : Type) := (η : Type) → Env η → ExceptT ε (StateM (Machine η)) α

/-- `x`, the outcome of which is taken for another. -/
def ending {σ ε ε' α β : Type} (g : Except ε α → Except ε' β) (x : ExceptT ε (StateM σ) α) :
    ExceptT ε' (StateM σ) β :=
  fun s => (g (x.run s).1, (x.run s).2)

theorem run_ending {σ ε ε' α β : Type} (g : Except ε α → Except ε' β)
    (x : ExceptT ε (StateM σ) α) (s : σ) : (ending g x).run s = (g (x.run s).1, (x.run s).2) := rfl

namespace Scope

inductive Kind
  | frame
  | object

def kind : Scope → Kind
  | frame => .frame
  | object _ => .object

/-- The instance that variables belong to; a call has none. -/
def number : Scope → Nat
  | frame => 0
  | object i => i

theorem eq_frame {s : Scope} (h : s.kind = .frame) : s = .frame := by
  cases s with
  | frame => rfl
  | object i => cases h

theorem eq_object {s : Scope} (h : s.kind = .object) : s = .object s.number := by
  cases s with
  | frame => cases h
  | object i => rfl

end Scope

/-- All that an evaluation can look at. -/
structure Sight where
  lookup : String → Option Value
  owner : Option String
  parentClass : Option String
  global? : String → Option Value
  lookupGlobal : String → GlobalLookup

namespace Env

variable {η : Type}

def sight (env : Env η) (m : Machine η) : Sight where
  lookup := env.scope.lookup m
  owner := env.scope.owner m
  parentClass := env.scope.parentClass m
  global? := env.resolver.global? m.host
  lookupGlobal := env.resolver.lookupGlobal m.host

/-- What a class looks like. -/
def shown (env : Env η) (name : String) : Act η (Option Instance) := do
  let i ← env.resolver.resolveClass name
  return (← get).view? i

end Env

/-- Programs made of steps that are the same for every host, in scopes of one kind. A lack of depth
comes from nothing but requests. -/
inductive Uniform (k : Scope.Kind) : {ε : Type} → [Bounded ε] → {α : Type} → Program ε α → Prop
  | pure {ε α : Type} [Bounded ε] (a : α) : Uniform k (fun _ _ => Pure.pure a : Program ε α)
  | throw {ε α : Type} [Bounded ε] (e : ε) : e ≠ Bounded.exhausted →
      Uniform k (fun _ _ => throw e : Program ε α)
  | bind {ε α β : Type} [Bounded ε] {x : Program ε α} {f : α → Program ε β} :
      Uniform k x → (∀ a, Uniform k (f a)) → Uniform k fun η env => x η env >>= fun a => f a η env
  | ending {ε ε' α β : Type} [Bounded ε] [Bounded ε'] {x : Program ε α}
      {g : Except ε α → Except ε' β} : Uniform k x →
      KeepsExhausted g →
      Uniform k fun η env => Cascade.ending g (x η env)
  | memo {x : Program Interrupt Value} (node : Nat) : Uniform k x →
      Uniform k fun η env => Eval.memo env.copy node (x η env)
  | look {ε α : Type} [Bounded ε] {f : Sight → Program ε α} : (∀ s, Uniform k (f s)) →
      Uniform k fun η env => get >>= fun m => f (env.sight m) η env
  | shown (name : String) : Uniform k fun _ env => env.shown name
  | resolveFunction (name : String) : Uniform k fun _ env => env.resolver.resolveFunction name
  /-- What is called is always a function that the resolver has given. -/
  | call {x : Program Interrupt (List Value)} (name : String) : Uniform k x →
      Uniform k fun η env => callFunction env name (x η env)
  /-- Only the sources of properties are registered. -/
  | registerSource (name : String) (level : Nat) :
      Uniform k (fun _ env => modify fun m =>
        { m with host := env.resolver.registerSource .property name level m.host } :
        Program Fault PUnit)
  /-- A call sets a variable. -/
  | setFrame {ε : Type} [Bounded ε] (name : String) (v : Value) : k = .frame →
      Uniform k (fun _ _ => modify fun m => { m with frame := m.frame.set name v } :
        Program ε PUnit)
  /-- An evaluation of an instance changes it. -/
  | update {ε : Type} [Bounded ε] (change : Instance → Instance) : k = .object →
      (∀ a, (change a).bare = change a.bare) →
      Uniform k (fun _ env => modify fun m => m.updateInstance env.scope.number change :
        Program ε PUnit)
  | congr {ε α : Type} [Bounded ε] {x y : Program ε α} : Uniform k y →
      (∀ η env, env.scope.kind = k → x η env = y η env) → Uniform k x

namespace Uniform

variable {k : Scope.Kind} {ε α β : Type} [Bounded ε]

/-- Something that is looked at, and nothing else. -/
theorem read (q : Sight → α) :
    Uniform k (fun _ env => do return q (env.sight (← get)) : Program ε α) :=
  .look fun s => .pure (q s)

/-- What a program does may depend on all that it can look at. -/
theorem of_sight {x : Program ε α} (h : ∀ s, ∃ y, Uniform k y ∧
    ∀ η env m, env.sight m = s → (x η env).run m = (y η env).run m) : Uniform k x := by
  choose y hy hrun using h
  exact .congr (.look hy) fun η env _ => funext fun m => hrun _ η env m rfl

theorem option {x : Option α → Program ε β} (hnone : Uniform k (x none))
    (hsome : ∀ a, Uniform k (x (some a))) : ∀ o, Uniform k (x o)
  | none => hnone
  | some a => hsome a

theorem ofAct {x : Program Fault α} (h : Uniform k x) :
    Uniform k fun η env => Eval.ofAct (x η env) :=
  .congr (.ending h keepsExhausted_ofAct) fun _ _ _ => funext (run_ofAct _)

theorem settle {x : Program Interrupt Value} (h : Uniform k x) :
    Uniform k fun η env => Eval.settle (x η env) :=
  .congr (.ending h keepsExhausted_settled) fun _ _ _ => funext (run_settle _)

theorem mapError {x : Program Fault α} (change : EvalError → EvalError) (h : Uniform k x) :
    Uniform k fun η env => Act.mapError change (x η env) :=
  .congr (.ending h (keepsExhausted_mapError change)) fun _ _ _ =>
    funext (run_mapError change _)

theorem succeeds {x : Program Fault α} (h : Uniform k x) :
    Uniform k fun η env => Act.succeeds (x η env) :=
  .congr (.ending h keepsExhausted_succeeded) fun _ _ _ => funext (run_succeeds _)

/-- An outcome that is looked at, whatever it is, but for a lack of depth. -/
theorem outcome [Inhabited α] {x : Program ε α} {f : Except ε α → Program ε β} (hx : Uniform k x)
    (hf : ∀ o, o ≠ .error Bounded.exhausted → Uniform k (f o))
    (hg : ∀ η env, f (.error Bounded.exhausted) η env =
      MonadExcept.throw (Bounded.exhausted : ε)) :
    Uniform k fun η env => Cascade.outcome (x η env) >>= fun o => f o η env := by
  classical
  let known (o : Except ε α) : Except ε (Except ε α) :=
    if o = .error Bounded.exhausted then .error Bounded.exhausted else .ok o
  have hknown : KeepsExhausted known := by
    intro o
    by_cases ho : o = .error Bounded.exhausted <;> simp [known, ho]
  -- The last step is never taken with a lack of depth, so it may be any there.
  let rest (o : Except ε α) : Program ε β :=
    if o = .error Bounded.exhausted then f (.ok default) else f o
  have hrest : ∀ o, Uniform k (rest o) := by
    intro o
    by_cases ho : o = .error Bounded.exhausted
    · simp only [rest, if_pos ho]
      exact hf _ nofun
    · simp only [rest, if_neg ho]
      exact hf o ho
  refine .congr (.bind (.ending hx hknown) hrest) fun η env _ => funext fun m => ?_
  change (Cascade.outcome (x η env) >>= _).run m = (Cascade.ending _ (x η env) >>= _).run m
  rw [run_outcome_bind, run_bind, run_ending]
  by_cases ho : ((x η env).run m).1 = .error Bounded.exhausted
  · simp only [known, ho, hg]
    rfl
  · simp only [known, rest, if_neg ho]

end Uniform

/-- What comes of a type: only a lack of depth is a failure of its own. -/
def typed : Outcome → Except Fault Property
  | .ok (.type name params) => .ok { Property.empty with type := some ⟨name, params⟩ }
  | .ok _ | .error (.returned _) => .ok .empty
  | .error (.fault (.error e)) => .ok (.ofError e)
  | .error (.fault .exhausted) => .error .exhausted

theorem keepsExhausted_typed : KeepsExhausted typed := by
  rintro ((v | (e | _)) | v)
  · simp [typed, Bounded.exhausted]
  · simp [typed, Bounded.exhausted]
  · simp [typed, Bounded.exhausted]
  · cases v <;> simp [typed]

theorem run_declaredType {η : Type} {env : Env η} {p : Param} {e : Expr} (h : p.type = some e)
    (m : Machine η) : (declaredType env p).run m =
      (typed ((eval env e).run m).1, ((eval env e).run m).2) := by
  change declaredType env p m = _
  unfold declaredType
  rw [h]
  simp only
  rcases (eval env e).run m with ⟨((v | (_ | _)) | v), m'⟩
  · rfl
  · rfl
  · rfl
  · cases v <;> rfl

section Requests

variable {η : Type} {k : Scope.Kind}

theorem run_shown (env : Env η) (name : String) (m : Machine η) : (env.shown name).run m =
    (((env.resolver.resolveClass name).run m).1.map
      ((env.resolver.resolveClass name).run m).2.view?,
      ((env.resolver.resolveClass name).run m).2) := by
  rw [Env.shown, run_bind]
  rcases (env.resolver.resolveClass name).run m with ⟨f | i, m'⟩ <;> rfl

/-- Whether anything is done with a class makes no difference to how it is asked for. -/
theorem resolveClass_bind {α : Type} (env : Env η) (name : String) (x : Act η α) :
    (env.resolver.resolveClass name >>= fun _ => x) = env.shown name >>= fun _ => x := by
  funext m
  change (env.resolver.resolveClass name >>= fun _ => x).run m = (env.shown name >>= fun _ => x).run m
  rw [run_bind, run_bind, run_shown]
  rcases (env.resolver.resolveClass name).run m with ⟨f | i, m'⟩ <;> rfl

theorem ofAct_resolveClass_bind {α : Type} (env : Env η) (name : String) (x : Eval η α) :
    (Eval.ofAct (env.resolver.resolveClass name) >>= fun _ => x) =
      Eval.ofAct (env.shown name) >>= fun _ => x := by
  funext m
  change (Eval.ofAct (env.resolver.resolveClass name) >>= fun _ => x).run m =
    (Eval.ofAct (env.shown name) >>= fun _ => x).run m
  rw [run_bind, run_bind, run_ofAct, run_ofAct, run_shown]
  rcases (env.resolver.resolveClass name).run m with ⟨f | i, m'⟩ <;> rfl

theorem succeeds_resolveClass (env : Env η) (name : String) :
    Act.succeeds (env.resolver.resolveClass name) = Act.succeeds (env.shown name) := by
  funext m
  change (Act.succeeds _).run m = (Act.succeeds _).run m
  rw [run_succeeds, run_succeeds, run_shown]
  rcases (env.resolver.resolveClass name).run m with ⟨(e | _) | i, m'⟩ <;> rfl

theorem classValue?_eq (env : Env η) (name property : String) : env.classValue? name property =
    do return (← env.shown name).bind fun inst => inst.value? property := by
  funext m
  change (env.classValue? name property).run m = (_ : Act η _).run m
  rw [Env.classValue?, run_bind, run_bind, run_shown]
  rcases (env.resolver.resolveClass name).run m with ⟨f | i, m'⟩
  · rfl
  · have hview := m'.bind_view? (f := fun inst => inst.value? property) (fun _ => rfl) i
    exact congrArg (fun v => (Except.ok v, m')) hview.symm

theorem uniform_classValue? (name property : String) :
    Uniform k fun _ env => env.classValue? name property :=
  .congr (.bind (.shown name) fun _ => .pure _) fun _ env _ => classValue?_eq env name property

theorem uniform_resolveClass {α : Type} {x : Program Fault α} (name : String) (h : Uniform k x) :
    Uniform k fun η env => env.resolver.resolveClass name >>= fun _ => x η env :=
  .congr (.bind (.shown name) fun _ => h) fun _ env _ => resolveClass_bind env name _

theorem uniform_global? (name : String) :
    Uniform k fun _ env => (do
      return (env.resolver.global? (← get).host name).getD .undef : Act _ Value) :=
  .read fun s => ((s.global? name).getD .undef)

/-- The value of a variable depends on nothing but the scope, the classes and the globals. -/
theorem uniform_lookupVariable (name : String) : Uniform k fun _ env => env.lookupVariable name := by
  refine .of_sight fun s => ?_
  cases hq : Name.qualifier? (Name.bare name) with
  | some q =>
    by_cases ho : s.owner.any fun o => Name.sameFold o q.1
    · refine ⟨_, .pure ((s.lookup q.2).getD .undef), ?_⟩
      rintro η env m rfl
      simp only [Env.sight] at ho
      simp only [Env.lookupVariable, hq, run_bind, run_get, if_pos ho]
      rfl
    · refine ⟨_, .bind (uniform_classValue? q.1 q.2) fun v => .pure (v.getD .undef), ?_⟩
      rintro η env m rfl
      simp only [Env.sight] at ho
      simp only [Env.lookupVariable, hq, run_bind, run_get, if_neg ho]
  | none =>
    have hglobal := uniform_global? (k := k) (Name.bare name)
    have hrest : ∀ v : Option Value, Uniform k fun _ env => (v.elim
        (do return (env.resolver.global? (← get).host (Name.bare name)).getD .undef) pure :
        Act _ Value) := .option hglobal fun _ => .pure _
    by_cases hg : Name.isGlobal name
    · refine ⟨_, hglobal, fun η env m _ => ?_⟩
      simp only [Env.lookupVariable, hq, hg]
      rfl
    · cases hs : s.lookup (Name.bare name) with
      | some v =>
        refine ⟨_, .pure v, ?_⟩
        rintro η env m rfl
        simp only [Env.sight] at hs
        simp [Env.lookupVariable, hq, run_bind, run_get, hg, hs]
      | none =>
        cases hp : s.parentClass with
        | some parent =>
          refine ⟨_, .bind (uniform_classValue? parent (Name.bare name)) hrest, ?_⟩
          rintro η env m rfl
          simp only [Env.sight] at hs hp
          rcases hv : (env.classValue? parent (Name.bare name)).run m with ⟨_ | _ | _, _⟩ <;>
            simp [Env.lookupVariable, hq, run_bind, run_get, hg, hs, hp, hv]
        | none =>
          refine ⟨_, hglobal, ?_⟩
          rintro η env m rfl
          simp only [Env.sight] at hs hp
          simp [Env.lookupVariable, hq, run_bind, run_get, hg, hs, hp]

theorem uniform_includeClasses (names : List String) :
    Uniform k fun _ env => Builtin.includeClasses env.resolver names := by
  induction names with
  | nil => exact .pure ()
  | cons name names ih => exact .bind (uniform_resolveClass name (.pure ())) fun _ => ih

theorem uniform_lookupKey (args : List Value) :
    Uniform k fun _ env => Builtin.lookupKey env.resolver args := by
  cases args with
  | nil => exact .throw _ nofun
  | cons key rest =>
    refine .of_sight fun s => ?_
    cases hs : s.global? key.display with
    | some v =>
      refine ⟨_, .pure v, ?_⟩
      rintro η env m rfl
      simp only [Env.sight] at hs
      simp only [Builtin.lookupKey, run_bind, run_get, hs]
    | none =>
      cases hd : Builtin.lookupDefault? (key :: rest) with
      | some v =>
        refine ⟨_, .pure v, ?_⟩
        rintro η env m rfl
        simp only [Env.sight] at hs
        simp only [Builtin.lookupKey, run_bind, run_get, hs, hd]
      | none =>
        refine ⟨_, .throw (.error (.lookupMissing key.display)) nofun, ?_⟩
        rintro η env m rfl
        simp only [Env.sight] at hs
        simp only [Builtin.lookupKey, run_bind, run_get, hs, hd]
        rfl

theorem uniform_succeeds (name : String) :
    Uniform k fun _ env => Act.succeeds (env.resolver.resolveClass name) :=
  .congr (.succeeds (.shown name)) fun _ env _ => succeeds_resolveClass env name

theorem uniform_isDefined (v : Value) : Uniform k fun _ env => Builtin.isDefined env v := by
  unfold Builtin.isDefined
  split
  · split
    · exact .read fun s => (s.lookup _).isSome || (s.lookupGlobal _).exists
    · simp only
      split
      · exact .pure true
      · refine .bind (.resolveFunction _) fun f => ?_
        split
        · exact .pure true
        · exact uniform_succeeds _
  · split
    · exact uniform_succeeds _
    · exact .pure true
  · exact .pure true
  · exact .pure false

theorem uniform_anyDefined (vs : List Value) :
    Uniform k fun _ env => Builtin.anyDefined env vs := by
  induction vs with
  | nil => exact .pure false
  | cons v vs ih =>
    unfold Builtin.anyDefined
    refine .bind (uniform_isDefined v) fun b => ?_
    split
    · exact .pure true
    · exact ih

theorem uniform_builtin (b : Builtin) (node : NodeRef) (args : List Value) :
    Uniform k fun _ env => b.apply env node args := by
  unfold Builtin.apply
  cases b with
  | message | ignored => exact .pure _
  | fail | ret => exact .throw _ nofun
  | «include» => exact .bind (.ofAct (uniform_includeClasses _)) fun _ => .pure _
  | lookup => exact .ofAct (uniform_lookupKey args)
  | defined => exact .bind (.ofAct (uniform_anyDefined args)) fun _ => .pure _

theorem uniform_assign (name : String) (o : Outcome) (ho : o ≠ .error Bounded.exhausted) :
    Uniform k fun _ env => env.scope.assign name o := by
  cases k with
  | frame =>
    rcases o with e | v
    · refine .congr (.throw e fun he => ho (congrArg Except.error he)) fun η env h => ?_
      rw [Scope.eq_frame h]
      rfl
    · refine .congr (.bind (.setFrame name v rfl) fun _ => .pure v) fun η env h => ?_
      rw [Scope.eq_frame h]
      rfl
  | object =>
    have hset : ∀ p : Property, Uniform .object fun η env =>
        (Scope.setProperty env.scope.number name p : Eval η Unit) := fun p =>
      .update (fun i => { i with properties := i.properties.set name p }) rfl fun _ => rfl
    rcases o with (v | e | _) | v
    · refine .congr (.throw (.returned v) nofun) fun η env h => ?_
      rw [Scope.eq_object h]
      rfl
    · refine .congr (.bind (hset (.ofError e)) fun _ => .pure .undef) fun η env h => ?_
      rw [Scope.eq_object h]
      rfl
    · exact absurd rfl ho
    · refine .congr (.bind (hset (Property.ofValue v).check) fun _ => .pure v) fun η env h => ?_
      rw [Scope.eq_object h]
      rfl

theorem uniform_declareResource (r : DeclaredResource) :
    Uniform k fun _ env => env.scope.declareResource r := by
  cases k with
  | frame =>
    refine .congr (.pure ()) fun η env h => ?_
    rw [Scope.eq_frame h]
    rfl
  | object =>
    refine .congr (.update (fun i => { i with resources := i.resources ++ [r] }) rfl fun _ => rfl)
      fun η env h => ?_
    rw [Scope.eq_object h]
    rfl

theorem ofAct_eq {α : Type} (x : Act η α) : Eval.ofAct x = ending (Except.mapError .fault) x :=
  funext (run_ofAct x)

/-- A call as steps that are joined. -/
theorem callFunction_eq (env : Env η) (name : String) (x : Eval η (List Value)) :
    callFunction env name x =
      ending (Except.mapError .fault) (env.resolver.resolveFunction name) >>= fun
        | none => throw (.fault (.error (.unknownFunction name)))
        | some d => x >>= fun args => ending (Except.mapError .fault)
            (ending (Except.mapError (Fault.map (.compilation .function name)))
              (env.resolver.invoke d args)) := by
  have hmap (y : Act η Value) : Act.mapError (.compilation .function name) y =
      ending (Except.mapError (Fault.map (.compilation .function name))) y :=
    funext (run_mapError _ y)
  simp only [← hmap, ← ofAct_eq]
  rfl

theorem uniform_lift {α : Type} (x : Except EvalError α) :
    Uniform k fun η _ => (liftM x : Eval η α) := by
  cases x with
  | error e => exact .throw _ nofun
  | ok a => exact .pure a

theorem uniform_declareTitles (typeName : String) (attributes : Table String Value)
    (titles : List Value) :
    Uniform k fun _ env => declareTitles env typeName attributes titles := by
  induction titles with
  | nil => exact .pure []
  | cons title rest ih =>
    have hrest := Uniform.bind ih fun vs =>
      .pure (Value.resource typeName title.display :: vs)
    unfold declareTitles
    simp only
    split
    · exact .congr (.bind (.ofAct (.shown _)) fun _ => hrest) fun _ env _ =>
        ofAct_resolveClass_bind env _ _
    · exact .bind (uniform_declareResource _) fun _ => hrest

mutual

/-- An expression evaluates by the same steps whatever the host. -/
theorem uniform_eval : ∀ e : Expr, Uniform k fun _ env => eval env e
  | .node id kind => by
    simp only [eval]
    exact .memo id (uniform_evalKind ⟨id, kind.name⟩ kind)

theorem uniform_evalKind (node : NodeRef) :
    ∀ kind : ExprKind, Uniform k fun _ env => evalKind env node kind
  | .literal _ | .default | .nop | .definition _ | .regex _ | .typeReference _
  | .qualifiedName _ => by
    simp only [evalKind]
    exact .pure _
  | .list items => by
    simp only [evalKind]
    exact .bind (uniform_evalAll items) fun _ => .pure _
  | .hash entries => by
    simp only [evalKind]
    exact .bind (uniform_evalEntries entries []) fun _ => .pure _
  | .block statements => by
    simp only [evalKind]
    exact uniform_evalSequence statements .undef
  | .variable name => by
    simp only [evalKind]
    exact .ofAct (uniform_lookupVariable name)
  | .assignment target value => by
    cases ht : assignmentTarget? target with
    | none =>
      simp only [evalKind, ht]
      exact .throw _ nofun
    | some name =>
      simp only [evalKind, ht]
      refine .outcome (uniform_eval value) (uniform_assign name) fun η env => ?_
      cases env.scope <;> rfl
  | .access target keys => by
    simp only [evalKind]
    exact .bind (uniform_eval target) fun _ => .bind (uniform_evalAll keys) fun _ => uniform_lift _
  | .call name args => by
    simp only [evalKind]
    split
    · exact .pure _
    · exact .bind (uniform_evalFirst args) fun _ => .throw _ nofun
    · exact .bind (uniform_evalAll args) fun vs => uniform_builtin _ node vs
    · exact .call _ (uniform_evalAll args)
  | .conditional test thenBranch elseBranch negated => by
    simp only [evalKind]
    refine .bind (uniform_eval test) fun v => ?_
    split
    · exact uniform_evalSequence elseBranch .undef
    · exact uniform_evalSequence thenBranch .undef
  | .caseOf test options => by
    simp only [evalKind]
    exact .bind (uniform_eval test) fun v => uniform_evalCase v options
  | .selector test entries => by
    simp only [evalKind]
    exact .bind (uniform_eval test) fun v => uniform_evalSelector v entries
  | .concat segments => by
    simp only [evalKind]
    exact .bind (uniform_evalConcat segments) fun _ => .pure _
  | .str inner | .heredoc inner => by
    simp only [evalKind]
    exact .bind (uniform_eval inner) fun _ => .pure _
  | .resource typeName bodies => by
    simp only [evalKind]
    exact .bind (uniform_eval typeName) fun v => .bind (uniform_evalBodies _ bodies) fun _ => .pure _
  | .ret none => by
    simp only [evalKind]
    exact .throw _ nofun
  | .ret (some value) => by
    simp only [evalKind]
    exact .bind (uniform_eval value) fun _ => .throw _ nofun
  | .binary op left right => by
    simp only [evalKind]
    refine .bind (uniform_eval left) fun v => ?_
    split
    · exact .pure _
    · exact .bind (uniform_eval right) fun w => uniform_lift _
  | .unary op operand => by
    simp only [evalKind]
    exact .bind (uniform_eval operand) fun v => uniform_lift _
  | .paren inner => by
    simp only [evalKind]
    exact uniform_eval inner
  | .unsupported tag _ => by
    simp only [evalKind]
    exact .throw _ nofun

theorem uniform_evalAll : ∀ es : List Expr, Uniform k fun _ env => evalAll env es
  | [] => by
    simp only [evalAll]
    exact .pure []
  | e :: es => by
    simp only [evalAll]
    exact .bind (uniform_eval e) fun v => .bind (uniform_evalAll es) fun vs => .pure _

theorem uniform_evalFirst : ∀ es : List Expr, Uniform k fun _ env => evalFirst env es
  | [] => by
    simp only [evalFirst]
    exact .pure _
  | e :: _ => by
    simp only [evalFirst]
    exact uniform_eval e

theorem uniform_evalSequence : ∀ (es : List Expr) (last : Value),
    Uniform k fun _ env => evalSequence env last es
  | [], last => by
    simp only [evalSequence]
    exact .pure last
  | e :: es, last => by
    simp only [evalSequence]
    exact .bind (uniform_eval e) fun v => uniform_evalSequence es v

theorem uniform_evalEntries : ∀ (es : List (Expr × Expr)) (done : Table String Value),
    Uniform k fun _ env => evalEntries env done es
  | [], done => by
    simp only [evalEntries]
    exact .pure done
  | (key, v) :: es, done => by
    simp only [evalEntries]
    exact .bind (uniform_eval key) fun _ => .bind (uniform_eval v) fun _ => uniform_evalEntries es _

theorem uniform_evalConcat : ∀ es : List Expr, Uniform k fun _ env => evalConcat env es
  | [] => by
    simp only [evalConcat]
    exact .pure ""
  | e :: es => by
    simp only [evalConcat]
    exact .bind (uniform_eval e) fun v => .bind (uniform_evalConcat es) fun _ => .pure _

theorem uniform_evalMatch (v : Value) : ∀ es : List Expr, Uniform k fun _ env => evalMatch env v es
  | [] => by
    simp only [evalMatch]
    exact .pure false
  | e :: es => by
    simp only [evalMatch]
    refine .bind (uniform_eval e) fun option => ?_
    split
    · exact .pure true
    · exact uniform_evalMatch v es

theorem uniform_evalCase (v : Value) : ∀ options : List CaseOption,
    Uniform k fun _ env => evalCase env v options
  | [] => by
    simp only [evalCase]
    exact .pure _
  | ⟨values, body⟩ :: rest => by
    simp only [evalCase]
    refine .bind (uniform_evalMatch v values) fun b => ?_
    split
    · exact uniform_evalSequence body .undef
    · exact uniform_evalCase v rest

theorem uniform_evalSelector (v : Value) : ∀ entries : List (Expr × Expr),
    Uniform k fun _ env => evalSelector env v entries
  | [] => by
    simp only [evalSelector]
    exact .throw _ nofun
  | (key, result) :: rest => by
    simp only [evalSelector]
    refine .bind (uniform_eval key) fun option => ?_
    split
    · exact uniform_eval result
    · exact uniform_evalSelector v rest

theorem uniform_evalAttributes : ∀ (es : List (String × Expr)) (done : Table String Value),
    Uniform k fun _ env => evalAttributes env done es
  | [], done => by
    simp only [evalAttributes]
    exact .pure done
  | (name, e) :: rest, done => by
    simp only [evalAttributes]
    exact .bind (uniform_eval e) fun v => uniform_evalAttributes rest _

theorem uniform_evalBodies (typeName : String) : ∀ bodies : List ResourceBody,
    Uniform k fun _ env => evalBodies env typeName bodies
  | [] => by
    simp only [evalBodies]
    exact .pure []
  | ⟨title, attributes⟩ :: rest => by
    simp only [evalBodies]
    exact .bind (uniform_eval title) fun v => .bind (uniform_evalAttributes attributes []) fun as =>
      .bind (uniform_declareTitles typeName as _) fun refs =>
        .bind (uniform_evalBodies typeName rest) fun _ => .pure _

end

theorem uniform_evalStatements (statements : List Expr) :
    Uniform k fun _ env => evalStatements env statements :=
  .settle (uniform_evalSequence statements .undef)

theorem uniform_declaredType (p : Param) : Uniform k fun _ env => declaredType env p := by
  cases ht : p.type with
  | none =>
    refine .congr (.pure .empty) fun η env _ => ?_
    unfold declaredType
    rw [ht]
  | some e =>
    exact .congr (.ending (uniform_eval e) keepsExhausted_typed) fun η env _ =>
      funext (run_declaredType ht)

theorem uniform_declaredDefault (p : Param) : Uniform k fun _ env => declaredDefault env p := by
  unfold declaredDefault
  cases p.default with
  | none => exact .pure none
  | some e =>
    refine .outcome (.settle (uniform_eval e)) (fun o ho => ?_) fun _ _ => rfl
    rcases o with (e | _) | v
    · exact .pure _
    · exact absurd rfl ho
    · exact .pure _

theorem uniform_override? (i : Instance) (param : String) :
    Uniform k fun _ env => override? env.resolver i param := by
  unfold override?
  cases i.seeds with
  | some seeds => exact .pure _
  | none =>
    refine .of_sight fun s => ?_
    cases hg : s.global? (i.name ++ "::" ++ param) with
    | none =>
      refine ⟨_, .pure none, ?_⟩
      rintro η env m rfl
      simp only [Env.sight] at hg
      simp only [run_bind, run_get, hg]
      cases env.resolver.lookupGlobal m.host (i.name ++ "::" ++ param) <;> rfl
    | some v =>
      cases hl : s.lookupGlobal (i.name ++ "::" ++ param) with
      | missing =>
        refine ⟨_, .pure none, ?_⟩
        rintro η env m rfl
        simp only [Env.sight] at hg hl
        simp only [run_bind, run_get, hg, hl]
      | unknownLevel =>
        refine ⟨_, .pure (some ⟨v, none⟩), ?_⟩
        rintro η env m rfl
        simp only [Env.sight] at hg hl
        simp only [run_bind, run_get, hg, hl]
        rfl
      | level n =>
        refine ⟨_, .bind (.registerSource (i.name ++ "::" ++ param) n) fun _ =>
          .pure (some ⟨v, some n⟩), ?_⟩
        rintro η env m rfl
        simp only [Env.sight] at hg hl
        simp only [run_bind, run_get, hg, hl]
        rfl

theorem uniform_resolveParam (i : Instance) (p : Param) :
    Uniform .object fun _ env => resolveParam env env.scope.number i p := by
  unfold resolveParam
  refine .bind (uniform_declaredType p) fun typed => ?_
  refine .bind (uniform_declaredDefault p) fun default => ?_
  refine .bind (uniform_override? i p.name) fun seed => ?_
  rcases seed with _ | seed
  · rcases default with _ | (e | v) <;> exact .pure _
  · simp only
    cases seed.level with
    | none => exact .pure _
    | some level =>
      exact .bind (.update (fun i => { i with overrides := i.overrides.set p.name level }) rfl
        fun _ => rfl) fun _ => .pure _

theorem uniform_resolveParams (i : Instance) (params : List Param) :
    Uniform .object fun _ env => resolveParams env env.scope.number i params := by
  induction params with
  | nil => exact .pure ()
  | cons p params ih =>
    unfold resolveParams
    refine .bind (uniform_resolveParam i p) fun property => ?_
    exact .bind (.update (fun i => { i with properties := i.properties.set p.name property }) rfl
      fun _ => rfl) fun _ => ih

/-- What is done to resolve an instance. -/
def instanceSteps (i : Instance) : Program Fault Unit := fun _ env => do
  match i.parent with
  | some parent => let _ ← env.resolver.resolveClass parent
  | none => pure ()
  resolveParams env env.scope.number i i.definition.params
  let _ ← evalStatements env i.definition.body

theorem uniform_instanceSteps (i : Instance) : Uniform .object (instanceSteps i) := by
  unfold instanceSteps
  have hrest := Uniform.bind (uniform_resolveParams i i.definition.params) fun _ =>
    .bind (uniform_evalStatements i.definition.body) fun _ => .pure ()
  cases i.parent with
  | none => exact hrest
  | some parent => exact uniform_resolveClass parent hrest

theorem run_resolveInstance {r : Resolver η} {number : Nat} {i : Instance} {m : Machine η}
    (h : m.instance? number = some i) : (resolveInstance r number).run m =
      (instanceSteps i η ⟨r, .object number, i.copy⟩).run m := by
  rw [resolveInstance, run_bind, run_get]
  simp only [h]
  rfl

theorem resolveParams_bare (env : Env η) (number : Nat) (i : Instance) (params : List Param) :
    resolveParams env number i.bare params = resolveParams env number i params := by
  induction params with
  | nil => rfl
  | cons p params ih =>
    rw [resolveParams, resolveParams, ih]
    rfl

theorem instanceSteps_bare (i : Instance) : instanceSteps i.bare = instanceSteps i := by
  funext η env
  unfold instanceSteps
  rw [resolveParams_bare]
  rfl

theorem uniform_bindParams (args : List Value) (params : List Param) :
    Uniform .frame fun _ env => bindParams env args params := by
  induction params generalizing args with
  | nil =>
    simp only [bindParams]
    exact .pure ()
  | cons p params ih =>
    have hbind : ∀ v, Uniform .frame fun η _ => (bindVariable p.name v : Act η Unit) := fun v =>
      .setFrame p.name v rfl
    unfold bindParams
    split
    · exact .bind (hbind _) fun _ => ih []
    · rcases args with _ | ⟨v, rest⟩
      · cases p.default with
        | none => exact .bind (hbind _) fun _ => ih []
        | some e => exact .bind (.settle (uniform_eval e)) fun v => .bind (hbind v) fun _ => ih []
      · exact .bind (hbind v) fun _ => ih rest

theorem uniform_checkReturn (d : Definition) (v : Value) :
    Uniform k fun _ env => checkReturn env d v := by
  unfold checkReturn
  cases d.returns with
  | none => exact .pure ()
  | some e =>
    refine .bind (.settle (uniform_eval e)) fun t => ?_
    split
    · simp only
      split
      · exact .throw _ nofun
      · exact .pure ()
    · exact .pure ()

/-- What a call does once the number of its arguments is right. -/
def callSteps (d : Definition) (args : List Value) : Program Fault Value := fun _ env => do
  bindParams env args d.params
  let v ← evalStatements env d.body
  checkReturn env d v
  return v

theorem uniform_callSteps (d : Definition) (args : List Value) :
    Uniform .frame (callSteps d args) :=
  .bind (uniform_bindParams args d.params) fun _ => .bind (uniform_evalStatements d.body) fun v =>
    .bind (uniform_checkReturn d v) fun _ => .pure v

end Requests

end Cascade
