import Cascade.Eval.Expr
import Cascade.Proofs.Eval.Machine
import Cascade.Proofs.Eval.Nodes
/-!
The order in which the parts of a node are evaluated. It is a tree of questions: the next part to be
evaluated can depend on the values of those before it, and on nothing else. An evaluation asks for
one part after the other, does errands of its own in between, and ends where a part is interrupted.
-/
namespace Cascade

open Relation

variable {η : Type}

/-- Which parts are evaluated, one after the other. -/
inductive Order
  | stop
  | ask (part : Expr) (next : Value → Order)

namespace Order

/-- All of them in turn. -/
def inTurn (last : Order) : List Expr → Order
  | [] => last
  | e :: es => ask e fun _ => inTurn last es

/-- Up to the first that matches `v`. -/
def untilMatch (v : Value) (found missed : Order) : List Expr → Order
  | [] => missed
  | e :: es => ask e fun option =>
    if Value.matchesAlternative v option then found else untilMatch v found missed es

def caseOf (v : Value) : List CaseOption → Order
  | [] => stop
  | ⟨values, body⟩ :: rest => untilMatch v (inTurn stop body) (caseOf v rest) values

def selector (v : Value) : List (Expr × Expr) → Order
  | [] => stop
  | (key, result) :: rest => ask key fun option =>
    if Value.matchesAlternative v option then inTurn stop [result] else selector v rest

end Order

/-- The arguments of a call that are evaluated. -/
def askedArgs (name : String) (args : List Expr) : List Expr :=
  match Builtin.ofName? (Name.bare name) with
  | some .ignored => []
  | some .ret => args.take 1
  | _ => args

namespace ExprKind

/-- From left to right, as far as the values of the parts ask for it. -/
def order : ExprKind → Order
  | list es | block es | concat es => .inTurn .stop es
  | hash entries => .inTurn .stop (entries.flatMap fun e => [e.1, e.2])
  | assignment target value =>
    if (assignmentTarget? target).isSome then .inTurn .stop [value] else .stop
  | access target keys => .inTurn .stop (target :: keys)
  | call name args => .inTurn .stop (askedArgs name args)
  | conditional test thenBranch elseBranch negated => .ask test fun v =>
    .inTurn .stop (if v.isTruthy == negated then elseBranch else thenBranch)
  | caseOf test options => .ask test fun v => .caseOf v options
  | selector test entries => .ask test fun v => .selector v entries
  | str inner | heredoc inner | paren inner | unary _ inner => .inTurn .stop [inner]
  | resource typeName bodies =>
    .inTurn .stop (typeName :: bodies.flatMap fun b => b.title :: b.attributes.map (·.2))
  | ret value => .inTurn .stop value.toList
  | binary op left right => .ask left fun v =>
    if (shortcut? op v).isSome then .stop else .inTurn .stop [right]
  | _ => .stop

end ExprKind

/-- The parts that are asked for stand in this order among `es`. -/
inductive Order.Along : Order → List Expr → Prop
  | stop (es : List Expr) : Along .stop es
  | ask {e : Expr} {next : Value → Order} {es : List Expr} : (∀ v, Along (next v) es) →
      Along (.ask e next) (e :: es)
  | skip {o : Order} {e : Expr} {es : List Expr} : Along o es → Along o (e :: es)

namespace Order.Along

variable {o found missed : Order} {es es' : List Expr}

theorem right (h : o.Along es') : ∀ es : List Expr, o.Along (es ++ es')
  | [] => h
  | _ :: es => .skip (h.right es)

theorem left (h : o.Along es) (es' : List Expr) : o.Along (es ++ es') := by
  induction h with
  | stop es => exact .stop _
  | ask _ ih => exact .ask ih
  | skip _ ih => exact .skip ih

theorem inTurn (h : o.Along es') : ∀ es : List Expr, (o.inTurn es).Along (es ++ es')
  | [] => h
  | _ :: es => .ask fun _ => h.inTurn es

theorem all (es : List Expr) : (Order.stop.inTurn es).Along es := by
  simpa using inTurn (.stop []) es

theorem untilMatch (v : Value) (hf : found.Along es') (hm : missed.Along es') :
    ∀ es : List Expr, (Order.untilMatch v found missed es).Along (es ++ es')
  | [] => hm
  | _ :: es => .ask fun option => by
    split
    · exact hf.right es
    · exact untilMatch v hf hm es

theorem caseOf (v : Value) : ∀ options : List CaseOption,
    (Order.caseOf v options).Along (options.flatMap fun o => o.values ++ o.body)
  | [] => .stop _
  | ⟨values, body⟩ :: rest => by
    rw [List.flatMap_cons, List.append_assoc]
    exact untilMatch v ((all body).left _) ((caseOf v rest).right body) values

theorem selector (v : Value) : ∀ entries : List (Expr × Expr),
    (Order.selector v entries).Along (entries.flatMap fun e => [e.1, e.2])
  | [] => .stop _
  | (key, result) :: rest => .ask fun option => by
    split
    · exact (all [result]).left _
    · exact .skip (selector v rest)

end Order.Along

/-- The parts of a node are evaluated from left to right. -/
theorem ExprKind.order_along (kind : ExprKind) : kind.order.Along kind.exprs := by
  cases kind with
  | list es | block es | concat es => exact .all es
  | hash entries => exact .all _
  | assignment target value =>
    simp only [order, exprs]
    split
    · exact .skip (.all [value])
    · exact .stop _
  | access target keys => exact .all (target :: keys)
  | call name args =>
    simp only [order, exprs, askedArgs]
    split
    · exact .stop _
    · have h := (Order.Along.all (args.take 1)).left (args.drop 1)
      rwa [List.take_append_drop] at h
    · exact .all args
  | conditional test thenBranch elseBranch negated =>
    refine .ask fun v => ?_
    split
    · exact (Order.Along.all elseBranch).right thenBranch
    · exact (Order.Along.all thenBranch).left elseBranch
  | caseOf test options => exact .ask fun v => .caseOf v options
  | selector test entries => exact .ask fun v => .selector v entries
  | str inner | heredoc inner | paren inner => exact .all [inner]
  | unary op inner => exact .all [inner]
  | resource typeName bodies => exact .all _
  | ret value => exact .all _
  | binary op left right =>
    refine .ask fun v => ?_
    split
    · exact .stop _
    · exact .all [right]
  | literal | typeReference | qualifiedName | definition | «variable» | default | nop | regex
  | unsupported => exact .stop _

/-- What an evaluation does beside evaluating parts: it makes requests, and changes its scope. -/
inductive Errand (env : Env η) : Machine η → Machine η → Prop
  | resolveClass (name : String) (m : Machine η) :
      Errand env m ((env.resolver.resolveClass name).run m).2
  | resolveFunction (name : String) (m : Machine η) :
      Errand env m ((env.resolver.resolveFunction name).run m).2
  | invoke (d : Definition) (args : List Value) (m : Machine η) :
      Errand env m ((env.resolver.invoke d args).run m).2
  | assign (name : String) (v : Value) (m : Machine η) :
      Errand env m ((env.scope.assign name (.ok v) : Eval η Value).run m).2
  | declareResource (r : DeclaredResource) (m : Machine η) :
      Errand env m ((env.scope.declareResource r : Eval η Unit).run m).2

/-- Parts are asked for in order, and have values, as far as to the order that is left. -/
inductive Asks (env : Env η) : Order → Machine η → List Expr → Machine η → Order → Prop
  | nil (o : Order) (m : Machine η) : Asks env o m [] m o
  | errand {o o' : Order} {m m' m'' : Machine η} {es : List Expr} : Errand env m m' →
      Asks env o m' es m'' o' → Asks env o m es m'' o'
  | part {e : Expr} {next : Value → Order} {v : Value} {o' : Order} {m m' m'' : Machine η}
      {es : List Expr} : (eval env e).run m = (.ok v, m') → Asks env (next v) m' es m'' o' →
      Asks env (.ask e next) m (e :: es) m'' o'

/-- How an evaluation ends that asks for parts in order; `es` are those that it has evaluated. -/
inductive Ends (env : Env η) (o : Order) {α : Type} (m : Machine η) :
    List Expr → Except Interrupt α × Machine η → Prop
  /-- All parts have values. -/
  | done {m' : Machine η} {es : List Expr} (q : Except Interrupt α) :
      Asks env o m es m' .stop → Ends env o m es (q, m')
  /-- A failure of its own. -/
  | fails {m' : Machine η} {es : List Expr} {o' : Order} (f : Fault) :
      Asks env o m es m' o' → Ends env o m es (.error (.fault f), m')
  /-- A part is interrupted. -/
  | interrupted {m' m'' : Machine η} {es : List Expr} {e : Expr} {next : Value → Order}
      {i : Interrupt} : Asks env o m es m' (.ask e next) →
      (eval env e).run m' = (.error i, m'') → Ends env o m (es ++ [e]) (.error i, m'')

theorem Asks.sublist {env : Env η} {o o' : Order} {m m' : Machine η} {es ps : List Expr}
    (h : Asks env o m ps m' o') (ho : o.Along es) :
    ∃ es₁ es₂, es = es₁ ++ es₂ ∧ ps.Sublist es₁ ∧ o'.Along es₂ := by
  induction h generalizing es with
  | nil o m => exact ⟨[], es, rfl, .slnil, ho⟩
  | errand _ _ ih => exact ih ho
  | @part e next v o' m m' m'' ps _ _ ih =>
    induction es with
    | nil => cases ho
    | cons e' es ihes =>
      cases ho with
      | ask hnext =>
        obtain ⟨es₁, es₂, rfl, hps, ho'⟩ := ih (hnext v)
        exact ⟨e :: es₁, es₂, rfl, hps.cons_cons e, ho'⟩
      | skip hrest =>
        obtain ⟨es₁, es₂, rfl, hps, ho'⟩ := ihes hrest
        exact ⟨e' :: es₁, es₂, rfl, hps.cons e', ho'⟩

theorem Order.Along.mem {e : Expr} {next : Value → Order} {es : List Expr}
    (h : (Order.ask e next).Along es) : e ∈ es := by
  induction es with
  | nil => cases h
  | cons e' es ih =>
    cases h with
    | ask => exact List.mem_cons_self
    | skip h => exact List.mem_cons_of_mem _ (ih h)

/-- The parts that are evaluated stand in this order in the node. -/
theorem Ends.sublist {env : Env η} {o : Order} {α : Type} {m : Machine η} {es ps : List Expr}
    {q : Except Interrupt α × Machine η} (h : Ends env o m ps q) (ho : o.Along es) :
    ps.Sublist es := by
  cases h with
  | done q h | fails f h =>
    obtain ⟨es₁, es₂, rfl, hps, -⟩ := h.sublist ho
    exact hps.trans (List.sublist_append_left es₁ es₂)
  | interrupted h _ =>
    obtain ⟨es₁, es₂, rfl, hps, ho'⟩ := h.sublist ho
    exact hps.append (List.singleton_sublist.mpr ho'.mem)

/-- Wherever `x` is run, it asks for parts in this order and does errands in between. -/
def Obeys (env : Env η) (o : Order) {α : Type} (x : Eval η α) : Prop :=
  ∀ m, ∃ ps, Ends env o m ps (x.run m)

/-- `x` does nothing but errands. -/
def Errands (env : Env η) {ε α : Type} (x : ExceptT ε (StateM (Machine η)) α) : Prop :=
  ∀ m₀, Maintains (ReflTransGen (Errand env) m₀) x

section Joining

variable {env : Env η} {o o' : Order} {m m' m'' : Machine η} {ps : List Expr} {α β : Type}

theorem Asks.errands (h : ReflTransGen (Errand env) m m') (ha : Asks env o m' ps m'' o') :
    Asks env o m ps m'' o' := by
  induction h using ReflTransGen.head_induction_on with
  | refl => exact ha
  | head he _ ih => exact .errand he ih

theorem Ends.errands (h : ReflTransGen (Errand env) m m') {q : Except Interrupt α × Machine η}
    (he : Ends env o m' ps q) : Ends env o m ps q := by
  cases he with
  | done q ha => exact .done q (.errands h ha)
  | fails f ha => exact .fails f (.errands h ha)
  | interrupted ha hi => exact .interrupted (.errands h ha) hi

theorem Ends.part {e : Expr} {next : Value → Order} {v : Value}
    (h : (eval env e).run m = (.ok v, m')) {q : Except Interrupt α × Machine η}
    (he : Ends env (next v) m' ps q) : Ends env (.ask e next) m (e :: ps) q := by
  cases he with
  | done q ha => exact .done q (.part h ha)
  | fails f ha => exact .fails f (.part h ha)
  | interrupted ha hi => exact .interrupted (.part h ha) hi

namespace Obeys

variable {x : Eval η α} {f : α → Eval η β}

theorem ask {e : Expr} {next : Value → Order} {f : Value → Eval η β}
    (hf : ∀ v, Obeys env (next v) (f v)) : Obeys env (.ask e next) (eval env e >>= f) := by
  intro m
  rw [run_bind]
  rcases hrun : (eval env e).run m with ⟨i | v, m'⟩
  · exact ⟨[e], .interrupted (.nil _ m) hrun⟩
  · obtain ⟨ps, hends⟩ := hf v m'
    exact ⟨e :: ps, hends.part hrun⟩

/-- What is left to do after the last part. -/
theorem of_errands (hx : Errands env x) : Obeys env .stop x :=
  fun m => ⟨[], .errands (hx m m .refl) (.done _ (.nil _ _))⟩

theorem fault (f : Fault) : Obeys env o (throw (.fault f) : Eval η α) :=
  fun m => ⟨[], .fails f (.nil o m)⟩

theorem pure (a : α) : Obeys env .stop (Pure.pure a : Eval η α) := of_errands fun _ => .pure a

/-- Errands never end with a `return`. -/
theorem errand_bind (hx : Errands env x) (hr : ∀ m v, (x.run m).1 ≠ .error (.returned v))
    (hf : ∀ a, Obeys env o (f a)) : Obeys env o (x >>= f) := by
  intro m
  have he := hx m m .refl
  have hv := hr m
  rw [run_bind]
  rcases hrun : x.run m with ⟨(v | e) | a, m'⟩
  · exact absurd (by rw [hrun]) (hv v)
  · rw [hrun] at he
    exact ⟨[], .errands he (.fails e (.nil _ _))⟩
  · rw [hrun] at he
    obtain ⟨ps, hends⟩ := hf a m'
    exact ⟨ps, hends.errands he⟩

theorem act_bind {x : Act η α} (hx : Errands env (Eval.ofAct x)) (hf : ∀ a, Obeys env o (f a)) :
    Obeys env o (Eval.ofAct x >>= f) := by
  refine errand_bind hx ?_ hf
  intro m v
  rw [run_ofAct]
  rcases x.run m with ⟨e | a, m'⟩ <;> simp [Except.mapError]

end Obeys

end Joining

namespace Errands

variable {env : Env η} {ε α : Type} {x : ExceptT ε (StateM (Machine η)) α}

theorem of_errand (h : ∀ m, Errand env m (x.run m).2) : Errands env x :=
  fun _ m hm => hm.tail (h m)

theorem ofAct {x : Act η α} (hx : Errands env x) : Errands env (Eval.ofAct x) := by
  intro m₀ m hm
  rw [run_ofAct]
  exact hx m₀ m hm

theorem succeeds {x : Act η α} (hx : Errands env x) : Errands env (Act.succeeds x) := by
  intro m₀ m hm
  rw [run_succeeds]
  exact hx m₀ m hm

theorem mapError {x : Act η α} (change : EvalError → EvalError) (hx : Errands env x) :
    Errands env (Act.mapError change x) := by
  intro m₀ m hm
  rw [run_mapError]
  exact hx m₀ m hm

theorem lift (a : Except EvalError α) : Errands env (liftM a : Eval η α) := by
  cases a with
  | error e => exact fun _ => .throw _
  | ok a => exact fun _ => .pure a

end Errands

section Requests

variable (env : Env η)

theorem errands_resolveClass (name : String) : Errands env (env.resolver.resolveClass name) :=
  .of_errand (.resolveClass name)

theorem errands_resolveFunction (name : String) :
    Errands env (env.resolver.resolveFunction name) :=
  .of_errand (.resolveFunction name)

theorem errands_classValue? (name property : String) : Errands env (env.classValue? name property) :=
  fun m₀ => .bind (errands_resolveClass env name m₀) fun _ => .look fun _ _ => .pure _

theorem errands_lookupVariable (name : String) : Errands env (env.lookupVariable name) := by
  intro m₀
  cases hq : Name.qualifier? (Name.bare name) with
  | some q =>
    simp only [Env.lookupVariable, hq]
    refine .look fun m _ => ?_
    split
    · exact .look fun _ _ => .pure _
    · exact .bind (errands_classValue? env _ _ m₀) fun _ => .pure _
  | none =>
    simp only [Env.lookupVariable, hq]
    have hglobal : Maintains (ReflTransGen (Errand env) m₀) (do
        return (env.resolver.global? (← get).host (Name.bare name)).getD .undef : Act η Value) :=
      .look fun _ _ => .pure _
    split
    · exact hglobal
    · refine .look fun m _ => ?_
      split
      next v _ => exact .pure v
      next =>
        refine .look fun m _ => ?_
        split
        · refine .bind (errands_classValue? env _ _ m₀) fun inherited => ?_
          cases inherited with
          | some v => exact .pure v
          | none => exact hglobal
        · exact hglobal

theorem errands_includeClasses (names : List String) :
    Errands env (Builtin.includeClasses env.resolver names) := by
  intro m₀
  induction names with
  | nil => exact .pure ()
  | cons name names ih =>
    exact .bind (.bind (errands_resolveClass env name m₀) fun _ => .pure _) fun _ => ih

theorem errands_lookupKey (args : List Value) : Errands env (Builtin.lookupKey env.resolver args) := by
  intro m₀
  unfold Builtin.lookupKey
  split
  · exact .throw _
  · refine .look fun m _ => ?_
    split
    · exact .pure _
    · split
      · exact .pure _
      · exact .throw _

theorem errands_isDefined (v : Value) : Errands env (Builtin.isDefined env v) := by
  intro m₀
  unfold Builtin.isDefined
  split
  · split
    · exact .look fun _ _ => .pure _
    · simp only
      split
      · exact .pure true
      · refine .bind (errands_resolveFunction env _ m₀) fun f => ?_
        split
        · exact .pure true
        · exact Errands.succeeds (errands_resolveClass env _) m₀
  · split
    · exact Errands.succeeds (errands_resolveClass env _) m₀
    · exact .pure true
  · exact .pure true
  · exact .pure false

theorem errands_anyDefined (vs : List Value) : Errands env (Builtin.anyDefined env vs) := by
  intro m₀
  induction vs with
  | nil => exact .pure false
  | cons v vs ih =>
    unfold Builtin.anyDefined
    refine .bind (errands_isDefined env v m₀) fun b => ?_
    split
    · exact .pure true
    · exact ih

theorem errands_builtin (b : Builtin) (node : NodeRef) (args : List Value) :
    Errands env (b.apply env node args) := by
  intro m₀
  unfold Builtin.apply
  cases b with
  | message | ignored => exact .pure _
  | fail | ret => exact .throw _
  | «include» =>
    exact .bind (Errands.ofAct (errands_includeClasses env _) m₀) fun _ => .pure _
  | lookup => exact Errands.ofAct (errands_lookupKey env args) m₀
  | defined => exact .bind (Errands.ofAct (errands_anyDefined env args) m₀) fun _ => .pure _

end Requests

section Evaluation

variable (env : Env η) {o : Order} {β : Type}

theorem Order.inTurn_append (o : Order) (es es' : List Expr) :
    o.inTurn (es ++ es') = (o.inTurn es').inTurn es := by
  induction es with
  | nil => rfl
  | cons e es ih => simp only [List.cons_append, Order.inTurn, ih]

theorem obeys_single (e : Expr) : Obeys env (Order.stop.inTurn [e]) (eval env e) := by
  have h : Obeys env (Order.stop.inTurn [e]) (eval env e >>= pure) := .ask .pure
  rwa [bind_pure] at h

theorem obeys_evalAll (es : List Expr) {k : List Value → Eval η β} (hk : ∀ vs, Obeys env o (k vs)) :
    Obeys env (o.inTurn es) (evalAll env es >>= k) := by
  induction es generalizing k with
  | nil => simpa only [evalAll, Order.inTurn, pure_bind] using hk []
  | cons e es ih =>
    simp only [evalAll, bind_assoc, pure_bind]
    exact .ask fun v => ih fun vs => hk (v :: vs)

theorem obeys_evalFirst (es : List Expr) {k : Value → Eval η β} (hk : ∀ v, Obeys env o (k v)) :
    Obeys env (o.inTurn (es.take 1)) (evalFirst env es >>= k) := by
  cases es with
  | nil => simpa only [evalFirst, List.take_nil, Order.inTurn, pure_bind] using hk .undef
  | cons e es =>
    simp only [evalFirst]
    exact .ask hk

theorem obeys_evalSequence (es : List Expr) (last : Value) :
    Obeys env (Order.stop.inTurn es) (evalSequence env last es) := by
  induction es generalizing last with
  | nil =>
    simp only [evalSequence]
    exact .pure last
  | cons e es ih =>
    simp only [evalSequence]
    exact .ask fun v => ih v

theorem obeys_evalEntries (es : List (Expr × Expr)) (done : Table String Value)
    {k : Table String Value → Eval η β} (hk : ∀ t, Obeys env o (k t)) :
    Obeys env (o.inTurn (es.flatMap fun e => [e.1, e.2])) (evalEntries env done es >>= k) := by
  induction es generalizing done with
  | nil => simpa only [evalEntries, List.flatMap_nil, Order.inTurn, pure_bind] using hk done
  | cons e es ih =>
    obtain ⟨key, v⟩ := e
    simp only [evalEntries, bind_assoc]
    exact .ask fun key => .ask fun v => ih _

theorem obeys_evalConcat (es : List Expr) {k : String → Eval η β} (hk : ∀ s, Obeys env o (k s)) :
    Obeys env (o.inTurn es) (evalConcat env es >>= k) := by
  induction es generalizing k with
  | nil => simpa only [evalConcat, Order.inTurn, pure_bind] using hk ""
  | cons e es ih =>
    simp only [evalConcat, bind_assoc, pure_bind]
    exact .ask fun v => ih fun s => hk _

theorem obeys_evalMatch (v : Value) (es : List Expr) {found missed : Order} {k : Bool → Eval η β}
    (hf : Obeys env found (k true)) (hm : Obeys env missed (k false)) :
    Obeys env (.untilMatch v found missed es) (evalMatch env v es >>= k) := by
  induction es with
  | nil => simpa only [evalMatch, Order.untilMatch, pure_bind] using hm
  | cons e es ih =>
    simp only [evalMatch, bind_assoc]
    refine .ask fun option => ?_
    split
    · simpa only [pure_bind] using hf
    · exact ih

theorem obeys_evalCase (v : Value) (options : List CaseOption) :
    Obeys env (.caseOf v options) (evalCase env v options) := by
  induction options with
  | nil =>
    simp only [evalCase]
    exact .pure _
  | cons option rest ih =>
    obtain ⟨values, body⟩ := option
    simp only [evalCase]
    exact obeys_evalMatch env v values (obeys_evalSequence env body .undef) ih

theorem obeys_evalSelector (v : Value) (entries : List (Expr × Expr)) :
    Obeys env (.selector v entries) (evalSelector env v entries) := by
  induction entries with
  | nil =>
    simp only [evalSelector]
    exact .fault _
  | cons entry rest ih =>
    obtain ⟨key, result⟩ := entry
    simp only [evalSelector]
    refine .ask fun option => ?_
    split
    · exact obeys_single env result
    · exact ih

theorem obeys_evalAttributes (es : List (String × Expr)) (done : Table String Value)
    {k : Table String Value → Eval η β} (hk : ∀ t, Obeys env o (k t)) :
    Obeys env (o.inTurn (es.map (·.2))) (evalAttributes env done es >>= k) := by
  induction es generalizing done with
  | nil => simpa only [evalAttributes, List.map_nil, Order.inTurn, pure_bind] using hk done
  | cons e es ih =>
    obtain ⟨name, e⟩ := e
    simp only [evalAttributes, bind_assoc]
    exact .ask fun v => ih _

theorem obeys_declareTitles (typeName : String) (attributes : Table String Value)
    (titles : List Value) {k : List Value → Eval η β} (hk : ∀ refs, Obeys env o (k refs)) :
    Obeys env o (declareTitles env typeName attributes titles >>= k) := by
  induction titles generalizing k with
  | nil => simpa only [declareTitles, pure_bind] using hk []
  | cons title rest ih =>
    simp only [declareTitles]
    split
    · simp only [bind_assoc, pure_bind]
      exact .act_bind (.ofAct (errands_resolveClass env _)) fun _ => ih fun refs => hk _
    · simp only [bind_assoc, pure_bind]
      refine .errand_bind (.of_errand (.declareResource _)) ?_ fun _ => ih fun refs => hk _
      intro m v
      cases env.scope <;> exact nofun

theorem obeys_evalBodies (typeName : String) (bodies : List ResourceBody)
    {k : List Value → Eval η β} (hk : ∀ refs, Obeys env o (k refs)) :
    Obeys env (o.inTurn (bodies.flatMap fun b => b.title :: b.attributes.map (·.2)))
      (evalBodies env typeName bodies >>= k) := by
  induction bodies generalizing k with
  | nil => simpa only [evalBodies, List.flatMap_nil, Order.inTurn, pure_bind] using hk []
  | cons body rest ih =>
    obtain ⟨title, attributes⟩ := body
    simp only [evalBodies, bind_assoc, pure_bind, List.flatMap_cons, Order.inTurn_append]
    refine .ask fun v => obeys_evalAttributes env attributes [] fun t => ?_
    exact obeys_declareTitles env typeName t _ fun refs => ih fun refs' => hk _

/-- The arguments of a call are evaluated if there is a function of that name. -/
theorem obeys_callFunction (name : String) (es : List Expr) :
    Obeys env (Order.stop.inTurn es) (callFunction env name (evalAll env es)) := by
  unfold callFunction
  refine .act_bind (.ofAct (errands_resolveFunction env name)) fun found => ?_
  cases found with
  | none => exact .fault _
  | some d =>
    refine obeys_evalAll env es fun args => .of_errands (.ofAct (.mapError _ ?_))
    exact .of_errand (.invoke d args)

theorem obeys_evalKind (node : NodeRef) (kind : ExprKind)
    (hk : ∀ target value, kind ≠ .assignment target value) :
    Obeys env kind.order (evalKind env node kind) := by
  cases kind with
  | assignment target value => exact absurd rfl (hk target value)
  | literal | default | nop | definition | regex | typeReference | qualifiedName =>
    simp only [evalKind]
    exact .pure _
  | list es =>
    simp only [evalKind]
    exact obeys_evalAll env es fun _ => .pure _
  | hash entries =>
    simp only [evalKind]
    exact obeys_evalEntries env entries [] fun _ => .pure _
  | block es =>
    simp only [evalKind]
    exact obeys_evalSequence env es .undef
  | «variable» name =>
    simp only [evalKind]
    exact .of_errands (.ofAct (errands_lookupVariable env name))
  | access target keys =>
    simp only [evalKind]
    exact .ask fun v => obeys_evalAll env keys fun vs => .of_errands (.lift _)
  | call name args =>
    simp only [evalKind, ExprKind.order, askedArgs]
    cases hb : Builtin.ofName? (Name.bare name) with
    | none => exact obeys_callFunction env _ args
    | some b =>
      cases b with
      | ignored => exact .pure _
      | ret => exact obeys_evalFirst env args fun v => .of_errands fun _ => .throw _
      | message | fail | «include» | lookup | defined =>
        exact obeys_evalAll env args fun vs => .of_errands (errands_builtin env _ node vs)
  | conditional test thenBranch elseBranch negated =>
    simp only [evalKind]
    refine .ask fun v => ?_
    split
    · exact obeys_evalSequence env elseBranch .undef
    · exact obeys_evalSequence env thenBranch .undef
  | caseOf test options =>
    simp only [evalKind]
    exact .ask fun v => obeys_evalCase env v options
  | selector test entries =>
    simp only [evalKind]
    exact .ask fun v => obeys_evalSelector env v entries
  | concat es =>
    simp only [evalKind]
    exact obeys_evalConcat env es fun _ => .pure _
  | str inner | heredoc inner =>
    simp only [evalKind]
    exact .ask fun _ => .pure _
  | resource typeName bodies =>
    simp only [evalKind]
    exact .ask fun v => obeys_evalBodies env _ bodies fun _ => .pure _
  | ret value =>
    cases value with
    | none =>
      simp only [evalKind]
      exact .of_errands fun _ => .throw _
    | some value =>
      simp only [evalKind]
      exact .ask fun _ => .of_errands fun _ => .throw _
  | binary op left right =>
    simp only [evalKind, ExprKind.order]
    refine .ask fun v => ?_
    cases shortcut? op v with
    | some w => exact .pure w
    | none => exact .ask fun w => .of_errands (.lift _)
  | unary op operand =>
    simp only [evalKind]
    exact .ask fun _ => .of_errands (.lift _)
  | paren inner =>
    simp only [evalKind, ExprKind.order]
    exact obeys_single env inner
  | unsupported tag args =>
    simp only [evalKind]
    exact .fault _

end Evaluation

end Cascade
