import Cascade.Proofs.Decode
import Cascade.Proofs.Grammar.Basic
/-!
What the decoder accepts. Each of its functions succeeds on what has the shape that the grammar
gives, if the parts that it hands on are accepted. So the decoder accepts what is formed, and what
it accepts beyond the letter of the grammar has a surplus somewhere.
-/
namespace Cascade

namespace Decode

open Grammar

variable {α β : Type}

/-- The parts of what `x` decodes: it succeeds if and only if all of them are good. -/
def Reads (S : Json → Prop) (x : Decode α) (X : List Json → Prop) : Prop :=
  ∀ k, (∃ a k', x.run k = .ok (a, k')) ↔ ∃ parts, X parts ∧ ∀ p ∈ parts, S p

namespace Reads

variable {S : Json → Prop} {x : Decode α} {f : α → Decode β} {X Y : List Json → Prop}

theorem congr (h : Reads S x X) (hXY : ∀ parts, X parts ↔ Y parts) : Reads S x Y := by
  intro k
  simp only [← hXY]
  exact h k

theorem pure (a : α) : Reads S (Pure.pure a : Decode α) (· = []) := by
  intro k
  simp only [exists_eq_left, List.not_mem_nil, false_imp_iff, implies_true, iff_true]
  exact ⟨a, k, rfl⟩

theorem throw {e : DecodeError} (h : ∀ parts, ¬ X parts) : Reads S (throw e : Decode α) X :=
  fun _ => ⟨nofun, fun ⟨parts, hX, _⟩ => (h parts hX).elim⟩

theorem bind (hx : Reads S x X) (hf : ∀ a, Reads S (f a) Y) :
    Reads S (x >>= f) fun parts => ∃ ps qs, X ps ∧ Y qs ∧ parts = ps ++ qs := by
  intro k
  simp only [run_bind_eq_ok]
  constructor
  · rintro ⟨b, k', a, k₁, ha, hb⟩
    obtain ⟨ps, hX, hps⟩ := (hx k).mp ⟨a, k₁, ha⟩
    obtain ⟨qs, hY, hqs⟩ := (hf a k₁).mp ⟨b, k', hb⟩
    refine ⟨ps ++ qs, ⟨ps, qs, hX, hY, rfl⟩, ?_⟩
    exact fun p hp => (List.mem_append.mp hp).elim (hps p) (hqs p)
  · rintro ⟨_, ⟨ps, qs, hX, hY, rfl⟩, hall⟩
    obtain ⟨a, k₁, ha⟩ := (hx k).mpr ⟨ps, hX, fun p hp => hall p (List.mem_append_left _ hp)⟩
    obtain ⟨b, k', hb⟩ := (hf a k₁).mpr ⟨qs, hY, fun p hp => hall p (List.mem_append_right _ hp)⟩
    exact ⟨b, k', a, k₁, ha, hb⟩

/-- Something is made of what has been decoded. -/
theorem map (hx : Reads S x X) (g : α → β) : Reads S (x >>= fun a => Pure.pure (g a)) X :=
  (hx.bind fun a => .pure (g a)).congr fun parts => by simp

/-- A check of the shape comes first. -/
theorem lift_bind {e : Except DecodeError α} {Z : α → List Json → Prop}
    (hf : ∀ a, Reads S (f a) (Z a)) :
    Reads S (liftM e >>= f) fun parts => ∃ a, e = .ok a ∧ Z a parts := by
  cases e with
  | error err => exact .throw fun parts => nofun
  | ok a =>
    have h : (liftM (Except.ok a : Except DecodeError α) >>= f : Decode β) = f a := rfl
    rw [h]
    exact (hf a).congr fun parts => by simp

theorem finish (kind : ExprKind) : Reads S (Decode.finish kind) (· = []) := by
  intro k
  simp only [exists_eq_left, List.not_mem_nil, false_imp_iff, implies_true, iff_true]
  exact ⟨_, _, rfl⟩

end Reads

theorem first_eq_ok {tag : String} {args : List Json} {j : Json} :
    first tag args = .ok j ↔ ∃ more, args = j :: more := by
  cases args <;> simp [first, malformed, pure, Except.pure, throw, throwThe, MonadExceptOf.throw]

theorem pair_eq_ok {tag : String} {args : List Json} {q : Json × Json} :
    pair tag args = .ok q ↔ args = [q.1, q.2] := by
  unfold pair
  split
  · simp [pure, Except.pure, Prod.ext_iff]
  · rename_i hne
    exact ⟨nofun, fun h => absurd h (hne _ _)⟩

theorem stringArg_eq_ok {tag : String} {args : List Json} {s : String} :
    stringArg tag args = .ok s ↔ ∃ more, args = .string s :: more := by
  unfold stringArg
  split
  · simp [pure, Except.pure]
  · rename_i hne
    refine ⟨nofun, ?_⟩
    rintro ⟨more, h⟩
    exact absurd (List.cons.inj h).1 (hne s)
  · exact ⟨nofun, nofun⟩

theorem required_eq_ok {tag key : String} {m : List (String × Json)} {j : Json} :
    required tag key m = .ok j ↔ member? m key = some j := by
  unfold required
  split
  · rename_i hmember
    simp [hmember, pure, Except.pure]
  · rename_i hnone
    simp [hnone, malformed, throw, throwThe, MonadExceptOf.throw]

/-- A node that takes a map. -/
theorem Reads.ofMap {S : Json → Prop} {form : MapForm} {f : List (String × Json) → Decode β}
    (hf : ∀ m, Reads S (f m) (form.Takes True m)) (tag : String) (args : List Json) :
    Reads S (liftM (first tag args) >>= fun arg => liftM (entriesOf tag arg) >>= f)
      ((Form.map form).Takes True args) := by
  refine (Reads.lift_bind fun arg => Reads.lift_bind hf).congr fun parts => ?_
  simp only [first_eq_ok, entriesOf_eq_ok, Form.Takes, true_or, true_and]
  constructor
  · rintro ⟨arg, ⟨more, h⟩, m, hm, hparts⟩
    exact ⟨arg, more, m, h, hm, hparts⟩
  · rintro ⟨arg, more, m, h, hm, hparts⟩
    exact ⟨arg, ⟨more, h⟩, m, hm, hparts⟩

theorem Reads.ofText {S : Json → Prop} (tag : String) (args : List Json) (f : String → α) :
    Reads S (do return f (← stringArg tag args)) (Form.text.Takes True args) := by
  refine Reads.congr (.lift_bind fun s => .pure _) fun parts => ?_
  simp [stringArg_eq_ok, Form.Takes]

theorem Reads.ofForm {S : Json → Prop} {x : Decode ExprKind} {tag : String} {form : Form}
    {args : List Json} (h : Form.table.get? tag = some form)
    (hx : Reads S x (form.Takes True args)) : Reads S x (CallTakes True tag args) :=
  hx.congr fun _ => (callTakes_some h).symm

/-- A minus may do with one expression, the other operators take two. -/
theorem get?_table_symbol (op : BinaryOp) : Form.table.get? op.symbol =
    if op = .sub then some .oneOrTwo else some .two := by
  cases op <;> rfl

theorem symbol_of_ofSymbol? {tag : String} {op : BinaryOp} (h : BinaryOp.ofSymbol? tag = some op) :
    op.symbol = tag := by
  simpa using List.find?_some h

section Parts

variable {S : Json → Prop} {sub : Json → Decode Expr}
  (hsub : ∀ j, Reads S (sub j) (· = [j]))

include hsub

theorem reads_list (js : List Json) : Reads S (list sub js) (· = js) := by
  induction js with
  | nil => exact .pure _
  | cons j js ih => exact ((hsub j).bind fun e => ih.map _).congr fun parts => by simp

theorem reads_statements (j : Json) : Reads S (statements sub j) (· = statementsOf j) := by
  cases j with
  | array items => exact reads_list hsub items
  | null | bool _ | number _ | string _ | object _ => exact (hsub _).map _

theorem reads_statementsAt (m : List (String × Json)) (key : String) :
    Reads S (statementsAt sub m key) (· = statementsIn m key) := by
  unfold statementsAt statementsIn
  split
  · rename_i j hj
    rw [hj]
    exact reads_statements hsub j
  · rename_i hnone
    rw [hnone]
    exact .pure _

theorem reads_optional (j : Option Json) : Reads S (optional sub j) (· = j.toList) := by
  cases j with
  | none => exact .pure _
  | some j => exact (hsub j).map _

theorem reads_single (tag : String) (args : List Json) :
    Reads S (single sub tag args) fun parts => args.length = 1 ∧ parts = args := by
  unfold single
  split
  · exact (hsub _).congr fun parts => by simp
  · rename_i hne
    refine .throw ?_
    rintro parts ⟨h, -⟩
    obtain ⟨j, rfl⟩ := List.length_eq_one_iff.mp h
    exact hne j rfl

theorem reads_arrow (tag : String) (j : Json) : Reads S (arrow sub tag j) (Association j) := by
  unfold arrow
  split
  · rename_i key value h
    exact ((hsub key).bind fun _ => (hsub value).map _).congr fun parts => by simp [Association, h]
  · rename_i hne
    refine .throw ?_
    rintro parts ⟨key, value, h, -⟩
    exact hne key value h

theorem reads_arrows (tag : String) (js : List Json) :
    Reads S (arrows sub tag js) (Each Association js) := by
  induction js with
  | nil => exact .pure _
  | cons j js ih => exact (reads_arrow hsub tag j).bind fun e => ih.map _

theorem reads_hashEntries (m : List (String × Json)) :
    Reads S (hashEntries sub m) (· = m.map (·.2)) := by
  induction m with
  | nil => exact .pure _
  | cons entry m ih =>
    exact ((Reads.finish _).bind fun _ => (hsub entry.2).bind fun _ => ih.map _).congr
      fun parts => by simp

theorem reads_param (entry : String × Json) : Reads S (param sub entry) (Parameter entry) := by
  unfold param
  refine Reads.congr (.lift_bind fun spec => .bind (reads_optional hsub _) fun type =>
    .bind (reads_optional hsub _) fun default => .pure _) fun parts => ?_
  simp [Parameter, entriesOf_eq_ok]

theorem reads_params (m : List (String × Json)) :
    Reads S (params sub m) (Each Parameter m) := by
  induction m with
  | nil => exact .pure _
  | cons entry m ih => exact (reads_param hsub entry).bind fun p => ih.map _

/-- What comes of the parameters, the body and the type of what is returned. -/
theorem reads_declared (declared m : List (String × Json)) (kind : DefinitionKind)
    (name : String) (parent : Option String) : Reads S (do
      let params ← params sub declared
      let body ← statementsAt sub m "body"
      let returns ← optional sub (member? m "returns")
      return { kind, name, params, parent, body, returns : Definition })
    fun parts => ∃ ps, Each Parameter declared ps ∧
      parts = ps ++ (statementsIn m "body" ++ (member? m "returns").toList) := by
  refine Reads.congr (.bind (reads_params hsub declared) fun _ =>
    .bind (reads_statementsAt hsub m "body") fun _ => (reads_optional hsub _).map _) fun parts => ?_
  simp

theorem reads_definition (kind : DefinitionKind) (args : List Json) :
    Reads S (definition sub kind args) ((Form.map .definition).Takes True args) := by
  unfold definition
  refine .ofMap (fun m => ?_) _ _
  split
  · rename_i hname
    exact .throw fun parts => by simp [MapForm.Takes, hname]
  · rename_i name hname
    simp only
    split
    · rename_i j hj
      refine (Reads.lift_bind fun declared => reads_declared hsub declared m _ _ _).congr
        fun parts => ?_
      simp [MapForm.Takes, hname, hj, entriesOf_eq_ok]
    · rename_i hnone
      rw [pure_bind]
      refine (reads_declared hsub [] m _ _ _).congr fun parts => ?_
      simp [MapForm.Takes, hname, hnone, Each]

theorem reads_functionCall (tag : String) (args : List Json) :
    Reads S (functionCall sub tag args) ((Form.map .call).Takes True args) := by
  unfold functionCall
  refine .ofMap (fun m => ?_) _ _
  refine (Reads.lift_bind (Z := fun functor parts => (nameOf? functor).isSome ∧
    ListIn m "args" parts) fun functor => ?_).congr fun parts => by
      simp [MapForm.Takes, required_eq_ok]
  split
  · rename_i hname
    exact .throw fun parts => by simp [hname]
  · rename_i name hname
    split
    · rename_i items hitems
      exact ((reads_list hsub items).map _).congr fun parts => by
        simp [hname, listIn_of_some hitems]
    · rename_i j hne hj
      have hno : ∀ parts, ¬ ListIn m "args" parts := fun _ => not_listIn hj hne
      exact .throw fun parts h => hno parts h.2
    · rename_i hnone
      exact (Reads.pure _).congr fun parts => by simp [hname, listIn_of_none hnone]

theorem reads_conditional (tag : String) (args : List Json) :
    Reads S (conditional sub tag args) ((Form.map .conditional).Takes True args) := by
  unfold conditional
  refine .ofMap (fun m => ?_) _ _
  refine Reads.congr (.lift_bind fun test => .bind (hsub test) fun _ =>
    .bind (reads_statementsAt hsub m "then") fun _ => (reads_statementsAt hsub m "else").map _)
    fun parts => ?_
  simp [MapForm.Takes, required_eq_ok]

theorem reads_caseOption (j : Json) : Reads S (caseOption sub j) (Arm j) := by
  unfold caseOption
  refine Reads.congr (.lift_bind fun m => .bind (reads_statementsAt hsub m "when") fun _ =>
    (reads_statementsAt hsub m "then").map _) fun parts => ?_
  simp [Arm, entriesOf_eq_ok]

theorem reads_caseOptions (js : List Json) : Reads S (caseOptions sub js) (Each Arm js) := by
  induction js with
  | nil => exact .pure _
  | cons j js ih => exact (reads_caseOption hsub j).bind fun o => ih.map _

/-- A test and a list of what `f` decodes. -/
theorem reads_tested {R : Json → List Json → Prop} {f : List Json → Decode α}
    (hf : ∀ js, Reads S (f js) (Each R js)) (tag expected : String) (args : List Json)
    (g : Expr → α → ExprKind) : Reads S (do
      let (test, options) ← pair tag args
      match options with
      | .array options =>
        let test ← sub test
        let options ← f options
        return g test options
      | other => wrongShape expected other)
    fun parts => ∃ test options ps, args = [test, .array options] ∧ Each R options ps ∧
      parts = test :: ps := by
  refine (Reads.lift_bind (Z := fun q parts => ∃ options ps, q.2 = .array options ∧
    Each R options ps ∧ parts = q.1 :: ps) fun q => ?_).congr fun parts => by
      simp [pair_eq_ok]
  simp only
  split
  · rename_i options hoptions
    refine Reads.congr (.bind (hsub q.1) fun _ => (hf options).map _) fun parts => ?_
    simp [hoptions]
  · rename_i hne
    refine .throw ?_
    rintro parts ⟨options, ps, h, -⟩
    exact hne options h

theorem reads_caseOf (args : List Json) : Reads S (caseOf sub args) (Form.arms.Takes True args) :=
  reads_tested hsub (reads_caseOptions hsub) "case" "case options" args .caseOf

theorem reads_selector (args : List Json) :
    Reads S (selector sub args) (Form.choices.Takes True args) :=
  reads_tested hsub (reads_arrows hsub "?") "?" "selector entries" args .selector

theorem reads_attributeOp (j : Json) : Reads S (attributeOp sub j) (Attribute j) := by
  unfold attributeOp
  split
  · rename_i op rest hj
    split
    · rename_i name value
      split
      · rename_i hop
        split
        · rename_i text hname
          exact ((hsub value).map _).congr fun parts => by simp [Attribute, hj, hop, hname]
        · rename_i hname
          exact .throw fun parts => by simp [Attribute, hj, hname]
      · rename_i hop
        have hnone : ∀ parts, ¬ Attribute j parts := fun parts => by simp [Attribute, hj, hop]
        split <;> exact .throw hnone
    · rename_i hne
      have hnone : ∀ parts, ¬ Attribute j parts := by
        rintro parts ⟨op', name, value, h, -⟩
        rw [hj, Option.some_inj, Json.array.injEq] at h
        exact hne name value (List.cons.inj h).2
      split <;> exact .throw hnone
  · rename_i hne
    refine .throw ?_
    rintro parts ⟨op, name, value, h, -⟩
    exact hne op [name, value] h

theorem reads_attributeOps (js : List Json) :
    Reads S (attributeOps sub js) (Each Attribute js) := by
  induction js with
  | nil => exact .pure _
  | cons j js ih => exact (reads_attributeOp hsub j).bind fun a => ih.map _

theorem reads_resourceBody (j : Json) : Reads S (resourceBody sub j) (Body True j) := by
  unfold resourceBody
  refine (Reads.lift_bind fun m => Reads.lift_bind fun title => (hsub title).bind
    (Y := fun attributes => ∃ ops, (ListIn m "ops" ops ∨ NoListIn m "ops" ∧ ops = []) ∧
      Each Attribute ops attributes) fun _ => ?_).congr fun parts => ?_
  · split
    · rename_i ops hops
      refine ((reads_attributeOps hsub ops).map _).congr fun parts => ?_
      have hlist : ¬ NoListIn m "ops" := fun ⟨j, hj, hne⟩ =>
        hne ops (Option.some_inj.mp (hj.symm.trans hops))
      simp [listIn_of_some hops, hlist]
    · rename_i hne
      exact (Reads.pure _).congr fun parts => by simp [listIn_or_noListIn hne, Each]
  · simp only [entriesOf_eq_ok, required_eq_ok, Body, true_and]
    constructor
    · rintro ⟨m, hm, title, htitle, _, attributes, rfl, ⟨ops, hops, heach⟩, rfl⟩
      exact ⟨m, title, ops, attributes, hm, htitle, hops, heach, rfl⟩
    · rintro ⟨m, title, ops, attributes, hm, htitle, hops, heach, rfl⟩
      exact ⟨m, hm, title, htitle, _, attributes, rfl, ⟨ops, hops, heach⟩, rfl⟩

theorem reads_resourceBodies (js : List Json) :
    Reads S (resourceBodies sub js) (Each (Body True) js) := by
  induction js with
  | nil => exact .pure _
  | cons j js ih => exact (reads_resourceBody hsub j).bind fun b => ih.map _

theorem reads_resource (args : List Json) :
    Reads S (resource sub args) ((Form.map .resource).Takes True args) := by
  unfold resource
  refine .ofMap (fun m => ?_) _ _
  refine (Reads.lift_bind fun type => (hsub type).bind (Y := fun ps => ∃ bodies,
    ListIn m "bodies" bodies ∧ Each (Body True) bodies ps) fun _ => ?_).congr fun parts => ?_
  · split
    · rename_i bodies hbodies
      exact ((reads_resourceBodies hsub bodies).map _).congr fun parts => by
        simp [listIn_of_some hbodies]
    · rename_i j hne hj
      have hno : ∀ bodies, ¬ ListIn m "bodies" bodies := fun _ => not_listIn hj hne
      exact .throw fun parts ⟨bodies, h, _⟩ => hno bodies h
    · rename_i hnone
      exact (Reads.pure _).congr fun parts => by simp [listIn_of_none hnone, Each]
  · simp only [required_eq_ok, MapForm.Takes]
    constructor
    · rintro ⟨type, htype, _, ps, rfl, ⟨bodies, hbodies, heach⟩, rfl⟩
      exact ⟨type, bodies, ps, htype, hbodies, heach, rfl⟩
    · rintro ⟨type, bodies, ps, htype, hbodies, heach, rfl⟩
      exact ⟨type, htype, _, ps, rfl, ⟨bodies, hbodies, heach⟩, rfl⟩

theorem reads_two (tag : String) (args : List Json) (f : Expr → Expr → α) :
    Reads S (do
      let (left, right) ← pair tag args
      let left ← sub left
      let right ← sub right
      return f left right) (Form.two.Takes True args) := by
  refine Reads.congr (.lift_bind fun q => .bind (hsub q.1) fun _ => (hsub q.2).map _)
    fun parts => ?_
  simp only [pair_eq_ok, Form.Takes]
  constructor
  · rintro ⟨⟨a, b⟩, rfl, _, _, rfl, rfl, rfl⟩
    exact ⟨rfl, rfl⟩
  · rintro ⟨hargs, rfl⟩
    obtain ⟨a, b, rfl⟩ := List.length_eq_two.mp hargs
    exact ⟨(a, b), rfl, _, _, rfl, rfl, rfl⟩

theorem reads_access (tag : String) (args : List Json) : Reads S (match args with
      | [] => malformed tag .missingTarget
      | target :: keys => do
        let target ← sub target
        let keys ← list sub keys
        return ExprKind.access target keys) (Form.oneOrMore.Takes True args) := by
  split
  · exact .throw fun parts h => h.1 rfl
  · rename_i target keys
    refine Reads.congr (.bind (hsub target) fun _ => (reads_list hsub keys).map _) fun parts => ?_
    simp [Form.Takes]

theorem reads_heredoc (tag : String) (args : List Json) : Reads S (do
      let arg ← first tag args
      let entries ← entriesOf tag arg
      let text ← required tag "text" entries
      return ExprKind.heredoc (← sub text)) ((Form.map .heredoc).Takes True args) := by
  refine .ofMap (fun m => ?_) _ _
  refine Reads.congr (.lift_bind fun text => (hsub text).map _) fun parts => ?_
  simp [MapForm.Takes, required_eq_ok]

theorem reads_ret (args : List Json) (f : Option Expr → α) :
    Reads S (do return f (← optional sub args.head?)) (Form.atMostOne.Takes True args) :=
  ((reads_optional hsub args.head?).map _).congr fun parts => by
    simp [Form.Takes, List.take_one]

theorem reads_binary (op : BinaryOp) (args : List Json) (h : op = .sub → args.length ≠ 1)
    (f : Expr → Expr → ExprKind) : Reads S (do
      let (left, right) ← pair op.symbol args
      let left ← sub left
      let right ← sub right
      return f left right) (CallTakes True op.symbol args) := by
  by_cases hminus : op = .sub
  · have hform : Form.table.get? op.symbol = some .oneOrTwo := by
      rw [get?_table_symbol, if_pos hminus]
    exact .ofForm hform ((reads_two hsub op.symbol args f).congr fun parts => by
      simp [Form.Takes, h hminus])
  · have hform : Form.table.get? op.symbol = some .two := by
      rw [get?_table_symbol, if_neg hminus]
    exact .ofForm hform (reads_two hsub op.symbol args f)

theorem reads_call (tag : String) (args : List Json) :
    Reads S (call sub tag args) (CallTakes True tag args) := by
  unfold call
  split
  · exact .ofForm rfl ((reads_list hsub args).map _)
  · exact .ofForm rfl ((reads_arrows hsub _ args).map _)
  · exact .ofForm rfl (.ofText _ _ _)
  · exact .ofForm rfl (.ofText _ _ _)
  · exact .ofForm rfl ((reads_list hsub args).map _)
  · exact .ofForm rfl ((reads_definition hsub _ _).map _)
  · exact .ofForm rfl ((reads_definition hsub _ _).map _)
  · exact .ofForm rfl ((reads_definition hsub _ _).map _)
  · exact .ofForm rfl (.ofText _ _ _)
  · exact .ofForm rfl (reads_two hsub _ _ _)
  · exact .ofForm rfl (reads_access hsub _ _)
  · exact .ofForm rfl (reads_functionCall hsub _ _)
  · exact .ofForm rfl (reads_functionCall hsub _ _)
  · exact .ofForm rfl (reads_conditional hsub _ _)
  · exact .ofForm rfl (reads_conditional hsub _ _)
  · exact .ofForm rfl (reads_caseOf hsub _)
  · exact .ofForm rfl (reads_selector hsub _)
  · exact .ofForm rfl ((reads_list hsub args).map _)
  · exact .ofForm rfl ((reads_single hsub _ _).map _)
  · exact .ofForm rfl (reads_heredoc hsub _ _)
  · exact .ofForm rfl (reads_resource hsub _)
  · exact .ofForm rfl (reads_ret hsub _ _)
  · exact .ofForm rfl ((reads_single hsub _ _).map _)
  · exact .ofForm rfl ((reads_single hsub _ _).map _)
  · exact .ofForm rfl ((Reads.pure _).congr fun parts => by simp [Form.Takes])
  · exact .ofForm rfl ((Reads.pure _).congr fun parts => by simp [Form.Takes])
  · exact .ofForm rfl (.ofText _ _ _)
  · split
    · rename_i hminus
      obtain ⟨rfl, hone⟩ := hminus
      have hform : Form.table.get? "-" = some .oneOrTwo := rfl
      exact .ofForm hform (((reads_single hsub _ _).map _).congr fun parts => by
        simp [Form.Takes, hone])
    · rename_i hminus
      split
      · rename_i op hop
        obtain rfl := symbol_of_ofSymbol? hop
        exact reads_binary hsub op args (fun h hone => hminus ⟨by rw [h]; rfl, hone⟩) _
      · rename_i hop
        have hnone : Form.table.get? tag = none := by
          have hsymbol : ∀ op ∈ BinaryOp.all, op.symbol ≠ tag := by
            simpa [BinaryOp.ofSymbol?] using hop
          simp only [BinaryOp.all, List.forall_mem_cons, BinaryOp.symbol] at hsymbol
          simp_all [Form.table, @eq_comm _ _ tag]
        exact (Reads.pure _).congr fun _ => (callTakes_none hnone).symm

theorem reads_kindOf (j : Json) : Reads S (kindOf sub j) (Shape True j) := by
  unfold kindOf
  split
  · exact (reads_list hsub _).map _
  · split
    · exact .throw fun parts => by simp [Shape]
    · rename_i tag args
      exact (reads_call hsub tag args).congr fun parts => by simp [Shape]
    · rename_i hstring
      refine .throw ?_
      rintro parts ⟨tag, args, h, -⟩
      exact hstring tag (List.cons.inj (Json.array.inj h)).1
    · rename_i hne _
      refine .throw ?_
      rintro parts ⟨tag, args, h, -⟩
      exact hne tag args h
  · refine (Reads.lift_bind fun m => (reads_hashEntries hsub m).map _).congr fun parts => ?_
    simp [entriesOf_eq_ok, Shape]
  · rename_i hlist hcall hmap
    exact (Reads.pure _).congr fun _ => (shape_literal hlist hcall hmap).symm

end Parts

end Decode

namespace Grammar

/-- Formed, and not more than so many levels are looked at. -/
def FormedWithin : Nat → Json → Prop
  | 0, _ => False
  | height + 1, j => ∃ parts, Shape True j parts ∧ ∀ p ∈ parts, FormedWithin height p

theorem reads_decodeWithin (height : Nat) (j : Json) :
    Decode.Reads (FormedWithin height) (Expr.decodeWithin height j) (· = [j]) := by
  induction height generalizing j with
  | zero =>
    refine fun k => ⟨nofun, ?_⟩
    rintro ⟨_, rfl, h⟩
    exact (h j (List.mem_singleton_self j)).elim
  | succ height ih =>
    intro k
    refine ((Decode.reads_kindOf ih j).bind fun kind => .finish kind) k |>.trans ?_
    simp [FormedWithin]

theorem formed_of_formedWithin {height : Nat} {j : Json} (h : FormedWithin height j) :
    Formed True j := by
  induction height generalizing j with
  | zero => exact h.elim
  | succ height ih =>
    obtain ⟨parts, hshape, hparts⟩ := h
    exact .node hshape fun p hp => ih (hparts p hp)

theorem Formed.within {j : Json} (h : Formed True j) :
    ∀ height, j.height ≤ height → FormedWithin height j := by
  induction h with
  | node hshape _ ih =>
    rintro (_ | height) hj
    · exact absurd hj (height_pos _).not_ge
    · refine ⟨_, hshape, fun p hp => ih p hp height ?_⟩
      have hlt := hshape.lower p hp
      omega

end Grammar

/-- The decoder accepts what the grammar describes, read leniently; to the letter it describes the
documents that have no surplus where an expression stands. -/
theorem Expr.decode_accepts (j : Json) :
    ((∃ e, decode j = .ok e) ↔ Grammar.Formed True j) ∧
      (Grammar.Formed False j ↔
        (∃ e, decode j = .ok e) ∧ ∀ p, Grammar.Occurs p j → ¬ Grammar.Surplus p) := by
  have haccepts : (∃ e, decode j = .ok e) ↔ Grammar.Formed True j :=
    calc (∃ e, decode j = .ok e)
        ↔ ∃ e k, (decodeWithin j.height j).run 0 = .ok (e, k) := by simp only [decode_eq_ok]
      _ ↔ ∃ parts, parts = [j] ∧ ∀ p ∈ parts, Grammar.FormedWithin j.height p :=
        Grammar.reads_decodeWithin j.height j 0
      _ ↔ Grammar.FormedWithin j.height j := by simp
      _ ↔ Grammar.Formed True j :=
        ⟨Grammar.formed_of_formedWithin, fun h => h.within _ le_rfl⟩
  exact ⟨haccepts, by rw [haccepts]; exact Grammar.formed_iff⟩

/-- The variable takes one name; what comes after it is overlooked. -/
theorem Expr.decode_overlooks :
    ¬ ∀ j, (∃ e, decode j = .ok e) ↔ Grammar.Formed False j := by
  intro h
  let j : Json := .object [("^", .array [.string "$", .string "x", .string "y"])]
  have hformed : Grammar.Formed False j := (h j).mp ⟨_, rfl⟩
  have hsurplus : Grammar.Surplus j := ⟨"$", _, .text, rfl, rfl, by simp [Grammar.Form.Surplus]⟩
  exact (Grammar.formed_iff.mp hformed).2 j .here hsurplus

end Cascade
