import Cascade.Proofs.Eval.Isolation
/-!
What the evaluation of an instance assigns. It sets no property but those that it assigns, and it never
touches what is known of overrides. So a parameter shows what its resolution has given it, unless
something that is evaluated later assigns it.
-/
namespace Cascade

variable {η : Type} {number : Nat} {names : Set String} {es es' : List Expr}

/-- The parts of an expression that are evaluated with it. -/
def ExprKind.evaluated : ExprKind → List Expr
  | assignment _ value => [value]
  | definition _ => []
  | kind => kind.exprs

/-- One of `es`, or a part that is evaluated with it, is an assignment to a variable. -/
inductive Assigns (name : String) : List Expr → Prop
  | self {es : List Expr} {id : Nat} {target value : Expr} :
      .node id (.assignment target value) ∈ es → assignmentTarget? target = some name →
      Assigns name es
  | part {e : Expr} {es : List Expr} : e ∈ es → Assigns name e.kind.evaluated → Assigns name es

theorem Assigns.mono {name : String} (h : Assigns name es) (hsub : ∀ e ∈ es, e ∈ es') :
    Assigns name es' := by
  cases h with
  | self he ht => exact .self (hsub _ he) ht
  | part he h => exact .part (hsub _ he) h

/-- None of some variables is assigned by `es`. -/
def Unassigned (names : Set String) (es : List Expr) : Prop := ∀ name ∈ names, ¬Assigns name es

namespace Unassigned

variable {e : Expr} {id : Nat} {kind : ExprKind}

@[simp] theorem nil : Unassigned names [] := by
  rintro name - (h | ⟨h, -⟩) <;> exact absurd h List.not_mem_nil

theorem empty (es : List Expr) : Unassigned ∅ es := fun _ hn => absurd hn (Set.notMem_empty _)

theorem mono (h : Unassigned names es') (hsub : ∀ e ∈ es, e ∈ es') : Unassigned names es :=
  fun name hn ha => h name hn (ha.mono hsub)

theorem head (h : Unassigned names (e :: es)) : Unassigned names [e] := h.mono (by simp)

theorem tail (h : Unassigned names (e :: es)) : Unassigned names es :=
  h.mono fun _ => List.mem_cons_of_mem e

theorem left (h : Unassigned names (es ++ es')) : Unassigned names es :=
  h.mono fun _ => List.mem_append_left es'

theorem right (h : Unassigned names (es ++ es')) : Unassigned names es' :=
  h.mono fun _ => List.mem_append_right es

/-- What is evaluated with a node assigns no more than the node. -/
theorem parts (h : Unassigned names [.node id kind]) : Unassigned names kind.evaluated :=
  fun name hn ha => h name hn (.part List.mem_cons_self ha)

theorem target_notMem {target value : Expr} {name : String}
    (h : Unassigned names [.node id (.assignment target value)])
    (ht : assignmentTarget? target = some name) : name ∉ names :=
  fun hn => h name hn (.self List.mem_cons_self ht)

end Unassigned

/-- Two states of an instance that differ in no override and in none of some properties. -/
structure Instance.Retains (names : Set String) (i i' : Instance) : Prop where
  definition : i'.definition = i.definition
  seeds : i'.seeds = i.seeds
  overrides : i'.overrides = i.overrides
  property {name : String} : name ∈ names → i'.properties.get? name = i.properties.get? name

namespace Instance.Retains

variable {i i' i'' : Instance}

theorem refl (i : Instance) : i.Retains names i := ⟨rfl, rfl, rfl, fun _ => rfl⟩

theorem trans (h : i.Retains names i') (h' : i'.Retains names i'') : i.Retains names i'' where
  definition := h'.definition.trans h.definition
  seeds := h'.seeds.trans h.seeds
  overrides := h'.overrides.trans h.overrides
  property hn := (h'.property hn).trans (h.property hn)

theorem setProperty (i : Instance) {name : String} (hn : name ∉ names) (p : Property) :
    i.Retains names { i with properties := i.properties.set name p } where
  definition := rfl
  seeds := rfl
  overrides := rfl
  property hm := by
    refine Table.get?_set_ne _ ?_ p
    rintro rfl
    exact hn hm

end Instance.Retains

namespace Machine

/-- `i` is the instance with a number that was given out before. -/
structure Has (m : Machine η) (number : Nat) (i : Instance) : Prop where
  lt : number < m.instances.length
  instance? : m.instance? number = some i

variable {m m' : Machine η} {i : Instance}

theorem Has.updateInstance (h : m.Has number i) (change : Instance → Instance) :
    (m.updateInstance number change).Has number (change i) where
  lt := by simpa using h.lt
  instance? := by
    rw [instance?_updateInstance, if_pos rfl, h.instance?]
    rfl

/-- What spares all that was there leaves every instance as it was. -/
theorem Since.has {Q : Course η} (h : m.Since Q ∅ m') (hi : m.Has number i) : m'.Has number i where
  lt := hi.lt.trans_le h.after.length_le
  instance? := (h.after.instances number hi.lt (Set.notMem_empty _)).trans hi.instance?

end Machine

/-- Wherever `x` is run, an instance retains some of its properties. -/
def Retains (number : Nat) (names : Set String) {ε α : Type}
    (x : ExceptT ε (StateM (Machine η)) α) : Prop :=
  ∀ (m : Machine η) (i : Instance), m.Has number i →
    ∃ i', (x.run m).2.Has number i' ∧ i.Retains names i'

namespace Retains

variable {ε ε' α β : Type} {x : ExceptT ε (StateM (Machine η)) α}

theorem pure (a : α) :
    Retains number names (Pure.pure a : ExceptT ε (StateM (Machine η)) α) :=
  fun _ i hi => ⟨i, hi, .refl i⟩

theorem throw (e : ε) : Retains number names (throw e : ExceptT ε (StateM (Machine η)) α) :=
  fun _ i hi => ⟨i, hi, .refl i⟩

theorem bind (hx : Retains number names x) {f : α → ExceptT ε (StateM (Machine η)) β}
    (hf : ∀ a, Retains number names (f a)) : Retains number names (x >>= f) := by
  intro m i hi
  obtain ⟨i', hi', hretains⟩ := hx m i hi
  rw [run_bind]
  rcases hrun : x.run m with ⟨e | a, m'⟩
  · rw [hrun] at hi'
    exact ⟨i', hi', hretains⟩
  · rw [hrun] at hi'
    obtain ⟨i'', hi'', hretains'⟩ := hf a m' i' hi'
    exact ⟨i'', hi'', hretains.trans hretains'⟩

theorem ending (g : Except ε α → Except ε' β) (hx : Retains number names x) :
    Retains number names (Cascade.ending g x) :=
  hx

theorem lift (a : Except EvalError α) : Retains number names (liftM a : Eval η α) := by
  cases a with
  | error e => exact .throw _
  | ok a => exact .pure a

theorem attempt {x : Eval η α} (hx : Retains number names x) :
    Retains number names (Eval.attempt x) := hx

theorem of_spares {Q : Course η} (hx : Spares Q ∅ x) : Retains number names x :=
  fun m i hi => ⟨i, (hx m).has hi, .refl i⟩

theorem update {change : Instance → Instance} (h : ∀ i : Instance, i.Retains names (change i)) :
    Retains number names (modify fun m => m.updateInstance number change :
      ExceptT ε (StateM (Machine η)) PUnit) :=
  fun _ i hi => ⟨change i, hi.updateInstance change, h i⟩

/-- Cells are no part of an instance. -/
theorem memo (copy node : Nat) {x : Eval η Value} (hx : Retains number names x) :
    Retains number names (Eval.memo copy node x) := by
  intro m i hi
  rw [run_memo]
  rcases (m.cell copy node).begin with ⟨_ | o, s⟩
  · obtain ⟨i', hi', hretains⟩ := hx (m.setCell copy node s) i ⟨hi.lt, hi.instance?⟩
    exact ⟨i', ⟨hi'.lt, hi'.instance?⟩, hretains⟩
  · exact ⟨i, hi, .refl i⟩

end Retains

set_option linter.unusedSectionVars false

section Evaluation

variable {Q : Course η} {env : Env η} (hr : env.resolver.Spares Q) (hs : env.scope = .object number)

include hs

theorem retains_assign {name : String} (hn : name ∉ names) (o : Outcome) :
    Retains number names (env.scope.assign name o : Eval η Value) := by
  rw [hs]
  rcases o with (v | e | _) | v
  · exact .throw _
  · exact .bind (.update fun i => .setProperty i hn _) fun _ => .pure _
  · exact .throw _
  · exact .bind (.update fun i => .setProperty i hn _) fun _ => .pure _

theorem retains_declareResource (d : DeclaredResource) :
    Retains number names (env.scope.declareResource d : Eval η Unit) := by
  rw [hs]
  exact .update fun _ => ⟨rfl, rfl, rfl, fun _ => rfl⟩

include hr

theorem retains_declareTitles (typeName : String) (attributes : Table String Value)
    (titles : List Value) :
    Retains number names (declareTitles env typeName attributes titles) := by
  induction titles with
  | nil => exact .pure []
  | cons title rest ih =>
    have hrest : ∀ v : Value, Retains number names (do
        return v :: (← declareTitles env typeName attributes rest) : Eval η (List Value)) :=
      fun v => .bind ih fun _ => .pure _
    unfold declareTitles
    simp only
    split
    · exact .bind (.of_spares (.ofAct (hr.resolveClass _))) fun _ => hrest _
    · exact .bind (retains_declareResource hs _) fun _ => hrest _

theorem retains_callFunction (name : String) {x : Eval η (List Value)}
    (hx : Retains number names x) : Retains number names (callFunction env name x) := by
  rw [callFunction_eq]
  refine .bind (.of_spares (.ending _ (hr.resolveFunction name))) fun found => ?_
  cases found with
  | none => exact .throw _
  | some d => exact .bind hx fun args => .of_spares (.ending _ (.ending _ (hr.invoke d args)))

mutual

/-- An expression sets no property but those that it assigns. -/
theorem retains_eval : ∀ e : Expr, Unassigned names [e] → Retains number names (eval env e)
  | .node id (.assignment target value), h => by
    simp only [eval]
    refine .memo env.copy id ?_
    cases ht : assignmentTarget? target with
    | none =>
      simp only [evalKind, ht]
      exact .throw _
    | some name =>
      simp only [evalKind, ht]
      exact .bind (.attempt (retains_eval value h.parts)) fun o =>
        retains_assign hs (h.target_notMem ht) o
  | .node id (.literal _), _ | .node id .default, _ | .node id .nop, _
  | .node id (.definition _), _ | .node id (.regex _), _ | .node id (.typeReference _), _
  | .node id (.qualifiedName _), _ => by
    simp only [eval, evalKind]
    exact .memo env.copy id (.pure _)
  | .node id (.list items), h => by
    simp only [eval, evalKind]
    exact .memo env.copy id (.bind (retains_evalAll items h.parts) fun _ => .pure _)
  | .node id (.hash entries), h => by
    simp only [eval, evalKind]
    exact .memo env.copy id (.bind (retains_evalEntries entries [] h.parts) fun _ => .pure _)
  | .node id (.block statements), h => by
    simp only [eval, evalKind]
    exact .memo env.copy id (retains_evalSequence statements .undef h.parts)
  | .node id (.variable name), _ => by
    simp only [eval, evalKind]
    exact .memo env.copy id (.of_spares (.ofAct (spares_lookupVariable hr name)))
  | .node id (.access target keys), h => by
    simp only [eval, evalKind]
    exact .memo env.copy id (.bind (retains_eval target h.parts.head) fun _ =>
      .bind (retains_evalAll keys h.parts.tail) fun _ => .lift _)
  | .node id (.call name args), h => by
    simp only [eval, evalKind]
    refine .memo env.copy id ?_
    split
    · exact .pure _
    · exact .bind (retains_evalFirst args h.parts) fun _ => .throw _
    · exact .bind (retains_evalAll args h.parts) fun vs => .of_spares (spares_builtin hr _ _ vs)
    · exact retains_callFunction hr hs _ (retains_evalAll args h.parts)
  | .node id (.conditional test thenBranch elseBranch negated), h => by
    simp only [eval, evalKind]
    refine .memo env.copy id (.bind (retains_eval test h.parts.head) fun v => ?_)
    split
    · exact retains_evalSequence elseBranch .undef h.parts.tail.right
    · exact retains_evalSequence thenBranch .undef h.parts.tail.left
  | .node id (.caseOf test options), h => by
    simp only [eval, evalKind]
    exact .memo env.copy id (.bind (retains_eval test h.parts.head) fun v =>
      retains_evalCase v options h.parts.tail)
  | .node id (.selector test entries), h => by
    simp only [eval, evalKind]
    exact .memo env.copy id (.bind (retains_eval test h.parts.head) fun v =>
      retains_evalSelector v entries h.parts.tail)
  | .node id (.concat segments), h => by
    simp only [eval, evalKind]
    exact .memo env.copy id (.bind (retains_evalConcat segments h.parts) fun _ => .pure _)
  | .node id (.str inner), h | .node id (.heredoc inner), h => by
    simp only [eval, evalKind]
    exact .memo env.copy id (.bind (retains_eval inner h.parts) fun _ => .pure _)
  | .node id (.resource typeName bodies), h => by
    simp only [eval, evalKind]
    exact .memo env.copy id (.bind (retains_eval typeName h.parts.head) fun v =>
      .bind (retains_evalBodies _ bodies h.parts.tail) fun _ => .pure _)
  | .node id (.ret none), _ => by
    simp only [eval, evalKind]
    exact .memo env.copy id (.throw _)
  | .node id (.ret (some value)), h => by
    simp only [eval, evalKind]
    exact .memo env.copy id (.bind (retains_eval value h.parts) fun _ => .throw _)
  | .node id (.binary op left right), h => by
    simp only [eval, evalKind]
    refine .memo env.copy id (.bind (retains_eval left h.parts.head) fun v => ?_)
    split
    · exact .pure _
    · exact .bind (retains_eval right h.parts.tail) fun w => .lift _
  | .node id (.unary op operand), h => by
    simp only [eval, evalKind]
    exact .memo env.copy id (.bind (retains_eval operand h.parts) fun v => .lift _)
  | .node id (.paren inner), h => by
    simp only [eval, evalKind]
    exact .memo env.copy id (retains_eval inner h.parts)
  | .node id (.unsupported tag _), _ => by
    simp only [eval, evalKind]
    exact .memo env.copy id (.throw _)

theorem retains_evalAll : ∀ es : List Expr, Unassigned names es →
    Retains number names (evalAll env es)
  | [], _ => by
    simp only [evalAll]
    exact .pure []
  | e :: es, h => by
    simp only [evalAll]
    exact .bind (retains_eval e h.head) fun _ => .bind (retains_evalAll es h.tail) fun _ => .pure _

theorem retains_evalFirst : ∀ es : List Expr, Unassigned names es →
    Retains number names (evalFirst env es)
  | [], _ => by
    simp only [evalFirst]
    exact .pure _
  | e :: _, h => by
    simp only [evalFirst]
    exact retains_eval e h.head

theorem retains_evalSequence : ∀ (es : List Expr) (last : Value), Unassigned names es →
    Retains number names (evalSequence env last es)
  | [], last, _ => by
    simp only [evalSequence]
    exact .pure last
  | e :: es, last, h => by
    simp only [evalSequence]
    exact .bind (retains_eval e h.head) fun v => retains_evalSequence es v h.tail

theorem retains_evalEntries : ∀ (es : List (Expr × Expr)) (done : Table String Value),
    Unassigned names (es.flatMap fun e => [e.1, e.2]) →
    Retains number names (evalEntries env done es)
  | [], done, _ => by
    simp only [evalEntries]
    exact .pure done
  | (key, v) :: es, done, h => by
    simp only [evalEntries]
    exact .bind (retains_eval key h.head) fun _ => .bind (retains_eval v h.tail.head) fun _ =>
      retains_evalEntries es _ h.tail.tail

theorem retains_evalConcat : ∀ es : List Expr, Unassigned names es →
    Retains number names (evalConcat env es)
  | [], _ => by
    simp only [evalConcat]
    exact .pure ""
  | e :: es, h => by
    simp only [evalConcat]
    exact .bind (retains_eval e h.head) fun _ =>
      .bind (retains_evalConcat es h.tail) fun _ => .pure _

theorem retains_evalMatch (v : Value) : ∀ es : List Expr, Unassigned names es →
    Retains number names (evalMatch env v es)
  | [], _ => by
    simp only [evalMatch]
    exact .pure false
  | e :: es, h => by
    simp only [evalMatch]
    refine .bind (retains_eval e h.head) fun option => ?_
    split
    · exact .pure true
    · exact retains_evalMatch v es h.tail

theorem retains_evalCase (v : Value) : ∀ options : List CaseOption,
    Unassigned names (options.flatMap fun o => o.values ++ o.body) →
    Retains number names (evalCase env v options)
  | [], _ => by
    simp only [evalCase]
    exact .pure _
  | ⟨values, body⟩ :: rest, h => by
    simp only [evalCase]
    refine .bind (retains_evalMatch v values h.left.left) fun b => ?_
    split
    · exact retains_evalSequence body .undef h.left.right
    · exact retains_evalCase v rest h.right

theorem retains_evalSelector (v : Value) : ∀ entries : List (Expr × Expr),
    Unassigned names (entries.flatMap fun e => [e.1, e.2]) →
    Retains number names (evalSelector env v entries)
  | [], _ => by
    simp only [evalSelector]
    exact .throw _
  | (key, result) :: rest, h => by
    simp only [evalSelector]
    refine .bind (retains_eval key h.head) fun option => ?_
    split
    · exact retains_eval result h.tail.head
    · exact retains_evalSelector v rest h.tail.tail

theorem retains_evalAttributes : ∀ (es : List (String × Expr)) (done : Table String Value),
    Unassigned names (es.map (·.2)) → Retains number names (evalAttributes env done es)
  | [], done, _ => by
    simp only [evalAttributes]
    exact .pure done
  | (name, e) :: rest, done, h => by
    simp only [evalAttributes]
    exact .bind (retains_eval e h.head) fun v => retains_evalAttributes rest _ h.tail

theorem retains_evalBodies (typeName : String) : ∀ bodies : List ResourceBody,
    Unassigned names (bodies.flatMap fun b => b.title :: b.attributes.map (·.2)) →
    Retains number names (evalBodies env typeName bodies)
  | [], _ => by
    simp only [evalBodies]
    exact .pure []
  | ⟨title, attributes⟩ :: rest, h => by
    simp only [evalBodies]
    exact .bind (retains_eval title h.left.head) fun v =>
      .bind (retains_evalAttributes attributes [] h.left.tail) fun as =>
      .bind (retains_declareTitles hr hs typeName as _) fun refs =>
      .bind (retains_evalBodies typeName rest h.right) fun _ => .pure _

end

end Evaluation

end Cascade
