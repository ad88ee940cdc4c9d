import Cascade.Artifact
import Cascade.Proofs.Eval.Traversal
/-!
The numbers of decoded nodes. Each node gets the next number when its parts have got theirs, so the
nodes of a tree have the numbers from 0 on in the order in which they are finished, and no two of them
have the same one. Decoding is followed with a list of what has been decoded so far: its nodes have
all the numbers below the next one.
-/
namespace Cascade

namespace Decode

variable {α β : Type} {before : List Expr}

theorem run_bind_eq_ok {x : Decode α} {f : α → Decode β} {k k' : Nat} {b : β} :
    (x >>= f).run k = .ok (b, k') ↔
      ∃ a k₁, x.run k = .ok (a, k₁) ∧ (f a).run k₁ = .ok (b, k') := by
  rw [StateT.run_bind]
  rcases x.run k with e | ⟨a, k₁⟩
  · simp [bind, Except.bind]
  · simp [bind, Except.bind]

/-- The nodes have the numbers below `k`, each once, a node a greater one than those below it. -/
def Numbered (k : Nat) (es : List Expr) : Prop := (nodesIn es).map Expr.id = List.range k

theorem numbered_finish {k : Nat} {kind : ExprKind} (h : Numbered k (before ++ kind.exprs)) :
    Numbered (k + 1) (before ++ [.node k kind]) := by
  rw [Numbered, nodesIn_append] at h
  rw [Numbered, nodesIn_append, nodesIn_singleton, Expr.nodes_eq, ← List.append_assoc,
    List.map_append, Expr.kind, h, List.range_succ]
  rfl

/-- After `before` comes what `x` decodes, and then all of it is `after`. -/
def Numbers (before : List Expr) (x : Decode α) (after : α → List Expr) : Prop :=
  ∀ k, Numbered k before → ∀ a k', x.run k = .ok (a, k') → Numbered k' (after a)

namespace Numbers

variable {x : Decode α} {after : α → List Expr} {after' : β → List Expr}

theorem pure {a : α} (h : after a = before) : Numbers before (Pure.pure a) after := by
  rintro k hk _ _ ⟨⟩
  exact h ▸ hk

theorem bind (hx : Numbers before x after) {f : α → Decode β}
    (hf : ∀ a, Numbers (after a) (f a) after') : Numbers before (x >>= f) after' := by
  intro k hk b k' hrun
  obtain ⟨a, k₁, ha, hb⟩ := run_bind_eq_ok.mp hrun
  exact hf a k₁ (hx k hk a k₁ ha) b k' hb

theorem lift (x : Except DecodeError α) : Numbers before (liftM x : Decode α) fun _ => before := by
  intro k hk a k' hrun
  rcases x with e | a
  · exact absurd hrun nofun
  · obtain ⟨rfl, rfl⟩ : a = _ ∧ k = k' := by
      simpa using Except.ok.inj hrun
    exact hk

theorem throw (e : DecodeError) : Numbers before (throw e : Decode α) after :=
  fun _ _ _ _ hrun => absurd hrun nofun

theorem malformed (tag : String) (flaw : Flaw) :
    Numbers before (liftM (Decode.malformed tag flaw : Except DecodeError α) : Decode α) after :=
  fun _ _ _ _ hrun => absurd hrun nofun

theorem wrongShape (expected : String) (found : Json) :
    Numbers before (liftM (Decode.wrongShape expected found : Except DecodeError α) : Decode α)
      after :=
  fun _ _ _ _ hrun => absurd hrun nofun

/-- A finished node takes the place of its parts. -/
theorem finish (kind : ExprKind) :
    Numbers (before ++ kind.exprs) (Decode.finish kind) fun e => before ++ [e] := by
  rintro k hk _ _ ⟨⟩
  exact numbered_finish hk

theorem leaf {kind : ExprKind} (h : kind.exprs = []) :
    Numbers before (Decode.finish kind) fun e => before ++ [e] := by
  have hfinish := @Numbers.finish before kind
  rwa [h, List.append_nil] at hfinish

end Numbers

section Parts

variable {sub : Json → Decode Expr}
  (hsub : ∀ j before, Numbers before (sub j) fun e => before ++ [e])

include hsub

theorem numbers_list (js : List Json) : Numbers before (list sub js) fun es => before ++ es := by
  induction js generalizing before with
  | nil => exact .pure (List.append_nil _)
  | cons j js ih => exact .bind (hsub j before) fun e => .bind ih fun es => .pure (by simp)

theorem numbers_statements (j : Json) :
    Numbers before (statements sub j) fun es => before ++ es := by
  unfold statements
  split
  · exact numbers_list hsub _
  · exact .bind (hsub _ before) fun e => .pure rfl

theorem numbers_statementsAt (entries : List (String × Json)) (key : String) :
    Numbers before (statementsAt sub entries key) fun es => before ++ es := by
  unfold statementsAt
  split
  · exact numbers_statements hsub _
  · exact .pure (List.append_nil _)

theorem numbers_optional (j : Option Json) :
    Numbers before (optional sub j) fun e => before ++ e.toList := by
  cases j with
  | none => exact .pure (List.append_nil _)
  | some j => exact .bind (hsub j before) fun e => .pure rfl

theorem numbers_single (tag : String) (js : List Json) :
    Numbers before (single sub tag js) fun e => before ++ [e] := by
  unfold single
  split
  · exact hsub _ before
  · exact .malformed _ _

theorem numbers_arrow (tag : String) (j : Json) :
    Numbers before (arrow sub tag j) fun e => before ++ [e.1, e.2] := by
  unfold arrow
  split
  · exact .bind (hsub _ before) fun key => .bind (hsub _ _) fun value => .pure (by simp)
  · exact .malformed _ _

theorem numbers_arrows (tag : String) (js : List Json) :
    Numbers before (arrows sub tag js) fun es => before ++ es.flatMap fun e => [e.1, e.2] := by
  induction js generalizing before with
  | nil => exact .pure (by simp)
  | cons j js ih => exact .bind (numbers_arrow hsub tag j) fun e => .bind ih fun es => .pure (by simp)

/-- The keys of a map are nodes of their own. -/
theorem numbers_hashEntries (entries : List (String × Json)) :
    Numbers before (hashEntries sub entries) fun es => before ++ es.flatMap fun e => [e.1, e.2] := by
  induction entries generalizing before with
  | nil => exact .pure (by simp)
  | cons entry entries ih =>
    exact .bind (.leaf rfl) fun key => .bind (hsub _ _) fun v => .bind ih fun es => .pure (by simp)

theorem numbers_param (entry : String × Json) :
    Numbers before (param sub entry) fun p => before ++ p.exprs := by
  unfold param
  refine .bind (.lift _) fun spec => .bind (numbers_optional hsub _) fun type => ?_
  exact .bind (numbers_optional hsub _) fun default => .pure (by simp [Param.exprs])

theorem numbers_params (entries : List (String × Json)) :
    Numbers before (params sub entries) fun ps => before ++ ps.flatMap Param.exprs := by
  induction entries generalizing before with
  | nil => exact .pure (by simp)
  | cons entry entries ih =>
    exact .bind (numbers_param hsub entry) fun p => .bind ih fun ps => .pure (by simp)

/-- What comes of the parameters, the body and the type of what is returned. -/
theorem numbers_declared (declared entries : List (String × Json)) (kind : DefinitionKind)
    (name : String) (parent : Option String) : Numbers before (do
      let params ← params sub declared
      let body ← statementsAt sub entries "body"
      let returns ← optional sub (member? entries "returns")
      return { kind, name, params, parent, body, returns : Definition })
    fun d => before ++ d.exprs := by
  refine .bind (numbers_params hsub _) fun params => ?_
  refine .bind (numbers_statementsAt hsub _ _) fun body => ?_
  exact .bind (numbers_optional hsub _) fun returns => .pure (by simp [Definition.exprs])

theorem numbers_definition (kind : DefinitionKind) (args : List Json) :
    Numbers before (definition sub kind args) fun d => before ++ d.exprs := by
  unfold definition
  refine .bind (.lift _) fun arg => .bind (.lift _) fun entries => ?_
  split
  · exact .throw _
  · simp only
    split
    · exact .bind (.lift _) fun declared => numbers_declared hsub declared _ _ _ _
    · rw [pure_bind]
      exact numbers_declared hsub [] _ _ _ _

theorem numbers_functionCall (tag : String) (args : List Json) :
    Numbers before (functionCall sub tag args) fun kind => before ++ kind.exprs := by
  unfold functionCall
  refine .bind (.lift _) fun arg => .bind (.lift _) fun entries => .bind (.lift _) fun functor => ?_
  split
  · exact .malformed _ _
  · split
    · exact .bind (numbers_list hsub _) fun es => .pure rfl
    · exact .wrongShape _ _
    · exact .pure (by simp [ExprKind.exprs])

theorem numbers_conditional (tag : String) (args : List Json) :
    Numbers before (conditional sub tag args) fun kind => before ++ kind.exprs := by
  unfold conditional
  refine .bind (.lift _) fun arg => .bind (.lift _) fun entries => .bind (.lift _) fun test => ?_
  refine .bind (hsub _ _) fun test => .bind (numbers_statementsAt hsub _ _) fun a => ?_
  exact .bind (numbers_statementsAt hsub _ _) fun b => .pure (by simp [ExprKind.exprs])

theorem numbers_caseOption (j : Json) :
    Numbers before (caseOption sub j) fun o => before ++ (o.values ++ o.body) := by
  unfold caseOption
  refine .bind (.lift _) fun entries => .bind (numbers_statementsAt hsub _ _) fun values => ?_
  exact .bind (numbers_statementsAt hsub _ _) fun body => .pure (by simp)

theorem numbers_caseOptions (js : List Json) : Numbers before (caseOptions sub js)
    fun os => before ++ os.flatMap fun o => o.values ++ o.body := by
  induction js generalizing before with
  | nil => exact .pure (by simp)
  | cons j js ih =>
    exact .bind (numbers_caseOption hsub j) fun o => .bind ih fun os => .pure (by simp)

theorem numbers_caseOf (args : List Json) :
    Numbers before (caseOf sub args) fun kind => before ++ kind.exprs := by
  unfold caseOf
  refine .bind (.lift _) fun q => ?_
  simp only
  split
  · refine .bind (hsub _ _) fun test => .bind (numbers_caseOptions hsub _) fun options => ?_
    exact .pure (by simp [ExprKind.exprs])
  · exact .wrongShape _ _

theorem numbers_selector (args : List Json) :
    Numbers before (selector sub args) fun kind => before ++ kind.exprs := by
  unfold selector
  refine .bind (.lift _) fun q => ?_
  simp only
  split
  · refine .bind (hsub _ _) fun test => .bind (numbers_arrows hsub _ _) fun entries => ?_
    exact .pure (by simp [ExprKind.exprs])
  · exact .wrongShape _ _

theorem numbers_attributeOp (j : Json) :
    Numbers before (attributeOp sub j) fun a => before ++ [a.2] := by
  unfold attributeOp
  split
  · split
    · split
      · split
        · exact .bind (hsub _ _) fun e => .pure rfl
        · exact .malformed _ _
      · split <;> exact .malformed _ _
    · split <;> exact .malformed _ _
  · exact .malformed _ _

theorem numbers_attributeOps (js : List Json) :
    Numbers before (attributeOps sub js) fun as => before ++ as.map (·.2) := by
  induction js generalizing before with
  | nil => exact .pure (by simp)
  | cons j js ih =>
    exact .bind (numbers_attributeOp hsub j) fun a => .bind ih fun as => .pure (by simp)

theorem numbers_resourceBody (j : Json) : Numbers before (resourceBody sub j)
    fun b => before ++ b.title :: b.attributes.map (·.2) := by
  unfold resourceBody
  refine .bind (.lift _) fun body => .bind (.lift _) fun title => .bind (hsub _ _) fun title => ?_
  split
  · exact .bind (numbers_attributeOps hsub _) fun as => .pure (by simp)
  · exact .pure (by simp)

theorem numbers_resourceBodies (js : List Json) : Numbers before (resourceBodies sub js)
    fun bs => before ++ bs.flatMap fun b => b.title :: b.attributes.map (·.2) := by
  induction js generalizing before with
  | nil => exact .pure (by simp)
  | cons j js ih =>
    exact .bind (numbers_resourceBody hsub j) fun b => .bind ih fun bs => .pure (by simp)

theorem numbers_resource (args : List Json) :
    Numbers before (resource sub args) fun kind => before ++ kind.exprs := by
  unfold resource
  refine .bind (.lift _) fun arg => .bind (.lift _) fun entries => .bind (.lift _) fun type => ?_
  refine .bind (hsub _ _) fun type => ?_
  split
  · exact .bind (numbers_resourceBodies hsub _) fun bs => .pure (by simp [ExprKind.exprs])
  · exact .wrongShape _ _
  · exact .pure (by simp [ExprKind.exprs])

theorem numbers_call (tag : String) (args : List Json) :
    Numbers before (call sub tag args) fun kind => before ++ kind.exprs := by
  unfold call
  split
  · exact .bind (numbers_list hsub _) fun es => .pure rfl
  · exact .bind (numbers_arrows hsub _ _) fun es => .pure rfl
  · exact .bind (.lift _) fun name => .pure (List.append_nil _)
  · exact .bind (.lift _) fun name => .pure (List.append_nil _)
  · exact .bind (numbers_list hsub _) fun es => .pure rfl
  · exact .bind (numbers_definition hsub _ _) fun d => .pure rfl
  · exact .bind (numbers_definition hsub _ _) fun d => .pure rfl
  · exact .bind (numbers_definition hsub _ _) fun d => .pure rfl
  · exact .bind (.lift _) fun name => .pure (List.append_nil _)
  · refine .bind (.lift _) fun q => .bind (hsub _ _) fun target => .bind (hsub _ _) fun value => ?_
    exact .pure (by simp [ExprKind.exprs])
  · split
    · exact .malformed _ _
    · refine .bind (hsub _ _) fun target => .bind (numbers_list hsub _) fun keys => ?_
      exact .pure (by simp [ExprKind.exprs])
  · exact numbers_functionCall hsub _ _
  · exact numbers_functionCall hsub _ _
  · exact numbers_conditional hsub _ _
  · exact numbers_conditional hsub _ _
  · exact numbers_caseOf hsub _
  · exact numbers_selector hsub _
  · exact .bind (numbers_list hsub _) fun es => .pure rfl
  · exact .bind (numbers_single hsub _ _) fun e => .pure rfl
  · refine .bind (.lift _) fun arg => .bind (.lift _) fun entries => .bind (.lift _) fun text => ?_
    exact .bind (hsub _ _) fun e => .pure rfl
  · exact numbers_resource hsub _
  · exact .bind (numbers_optional hsub _) fun e => .pure rfl
  · exact .bind (numbers_single hsub _ _) fun e => .pure rfl
  · exact .bind (numbers_single hsub _ _) fun e => .pure rfl
  · exact .pure (List.append_nil _)
  · exact .pure (List.append_nil _)
  · exact .bind (.lift _) fun source => .pure (List.append_nil _)
  · split
    · exact .bind (numbers_single hsub _ _) fun e => .pure rfl
    · split
      · refine .bind (.lift _) fun q => .bind (hsub _ _) fun l => .bind (hsub _ _) fun r => ?_
        exact .pure (by simp [ExprKind.exprs])
      · exact .pure (List.append_nil _)

theorem numbers_kindOf (j : Json) :
    Numbers before (kindOf sub j) fun kind => before ++ kind.exprs := by
  unfold kindOf
  split
  · exact .bind (numbers_list hsub _) fun es => .pure rfl
  · split
    · exact .throw _
    · exact numbers_call hsub _ _
    · exact .wrongShape _ _
    · exact .wrongShape _ _
  · exact .bind (.lift _) fun entries => .bind (numbers_hashEntries hsub _) fun es => .pure rfl
  · exact .pure (List.append_nil _)

end Parts

theorem numbers_decodeWithin (height : Nat) (j : Json) (before : List Expr) :
    Numbers before (Expr.decodeWithin height j) fun e => before ++ [e] := by
  induction height generalizing j before with
  | zero => exact .throw _
  | succ height ih => exact .bind (numbers_kindOf ih j) fun kind => .finish kind

end Decode

theorem Expr.decode_eq_ok {j : Json} {e : Expr} :
    decode j = .ok e ↔ ∃ k, (decodeWithin j.height j).run 0 = .ok (e, k) := by
  rw [decode, StateT.run'_eq]
  rcases (decodeWithin j.height j).run 0 with err | ⟨e', k⟩
  · exact ⟨nofun, nofun⟩
  · simp [Functor.map, Except.map]

/-- The nodes of a decoded tree have the numbers from 0 on, in the order in which they are finished. -/
theorem Expr.exists_numbered_of_decode {j : Json} {e : Expr} (h : Expr.decode j = .ok e) :
    ∃ k, Decode.Numbered k [e] := by
  obtain ⟨k, hrun⟩ := decode_eq_ok.mp h
  exact ⟨k, Decode.numbers_decodeWithin _ j [] 0 rfl _ k hrun⟩

/-- The nodes of a decoded tree have different numbers. -/
theorem Expr.apart_of_decode {j : Json} {e : Expr} (h : Expr.decode j = .ok e) : Apart [e] := by
  obtain ⟨k, hk⟩ := Expr.exists_numbered_of_decode h
  exact .of_nodup (hk ▸ List.nodup_range)

theorem definitionsIn_eq (es : List Expr) : definitionsIn es = es.flatMap Expr.definitions := by
  induction es with
  | nil => rfl
  | cons e es ih => rw [definitionsIn, ih, List.flatMap_cons]

/-- The definitions that an expression holds are those of nodes of it. -/
theorem Expr.exists_definition (e : Expr) {d : Definition} :
    d ∈ e.definitions → ∃ n, Within n [e] ∧ n.kind = .definition d := by
  induction e using Expr.of_parts with
  | h id kind ih =>
    have hinner (es : List Expr) (hes : ∀ p ∈ es, p ∈ kind.exprs) (hd : d ∈ definitionsIn es) :
        ∃ n, Within n [.node id kind] ∧ n.kind = .definition d := by
      rw [definitionsIn_eq, List.mem_flatMap] at hd
      obtain ⟨p, hp, hd⟩ := hd
      obtain ⟨n, hn, hkind⟩ := ih p (hes p hp) hd
      refine ⟨n, .part List.mem_cons_self (hn.mono fun q hq => ?_), hkind⟩
      exact List.mem_singleton.mp hq ▸ hes p hp
    rw [Expr.definitions]
    intro hd
    cases kind with
    | definition d' =>
      rw [ExprKind.definitions] at hd
      rcases List.mem_cons.mp hd with rfl | hd
      · exact ⟨_, .self List.mem_cons_self, rfl⟩
      · obtain ⟨kind, name, params, parent, body, returns⟩ := d'
        refine hinner body (fun p hp => ?_) hd
        exact List.mem_append_left _ (List.mem_append_right _ hp)
    | block statements => exact hinner statements (fun p hp => hp) hd
    | _ => simp [ExprKind.definitions] at hd

theorem Artifact.decode_eq_ok {text : String} {a : Artifact} : Artifact.decode text = .ok a ↔
    ∃ j root, Json.parse text = .ok j ∧ Expr.decode j = .ok root ∧
      a.definitions = root.definitions := by
  obtain ⟨definitions⟩ := a
  rw [Artifact.decode]
  rcases hparse : Json.parse text with err | j
  · simp
  · rcases hroot : Expr.decode j with err | root
    · simp [hroot, bind, Except.bind]
    · simp [hroot, bind, Except.bind, pure, Except.pure, eq_comm]

/-- The nodes of a definition from an artifact have different numbers. -/
theorem Artifact.apart_of_decode {text : String} {a : Artifact} (h : Artifact.decode text = .ok a)
    {d : Definition} (hd : d ∈ a.definitions) : Apart d.exprs := by
  obtain ⟨j, root, -, hroot, hdefinitions⟩ := Artifact.decode_eq_ok.mp h
  obtain ⟨n, hn, hkind⟩ := root.exists_definition (hdefinitions ▸ hd)
  have hapart := (Expr.apart_of_decode hroot).of_within hn
  rwa [hkind] at hapart

/-- The numbers of a tree leave nothing out: they go from 0 on, one for each node, and grow towards the
root. -/
structure Expr.Dense (root : Expr) : Prop where
  all {n : Expr} : n ∈ root.nodes ↔ Within n [root]
  different : root.nodes.Pairwise fun n n' => n.id ≠ n'.id
  numbers {k : Nat} : (∃ n ∈ root.nodes, n.id = k) ↔ k < root.nodes.length
  above {n p : Expr} : Within n [root] → Within p n.kind.exprs → p.id < n.id
  root : root.id + 1 = root.nodes.length

theorem Decode.Numbered.dense {k : Nat} {root : Expr} (h : Numbered k [root]) : root.Dense := by
  rw [Numbered, nodesIn_singleton] at h
  have hlength : root.nodes.length = k := by
    rw [← List.length_map (f := Expr.id), h, List.length_range]
  have hgrow : root.nodes.Pairwise fun n n' => n.id < n'.id :=
    List.pairwise_map.mp (h ▸ List.pairwise_lt_range)
  constructor
  case all =>
    intro n
    rw [← mem_nodesIn, nodesIn_singleton]
  case different => exact hgrow.imp Nat.ne_of_lt
  case numbers =>
    intro i
    rw [← List.mem_map, h, List.mem_range, hlength]
  case above =>
    intro n p hn hp
    have htree := hgrow.sublist (nodesIn_singleton ▸ hn.nodes_sublist)
    rw [Expr.nodes_eq, List.pairwise_append] at htree
    exact htree.2.2 p (mem_nodesIn.mpr hp) n List.mem_cons_self
  case root =>
    subst hlength
    rw [Expr.nodes_eq, List.length_append, List.length_singleton, List.range_succ,
      List.map_append] at h
    have hlast : [root.id] = [(nodesIn root.kind.exprs).length] := List.append_inj_right' h rfl
    rw [Expr.nodes_eq, List.length_append, List.length_singleton, List.head_eq_of_cons_eq hlast]

/-- The nodes of what has been decoded, a single expression or an artifact with all the definitions that
it is taken apart into, have the numbers from 0 on, and the root has the last one. -/
theorem dense_of_decode :
    (∀ j root, Expr.decode j = .ok root → root.Dense) ∧
      ∀ text a, Artifact.decode text = .ok a → ∃ j root, Json.parse text = .ok j ∧
        Expr.decode j = .ok root ∧ root.Dense ∧ a.definitions = root.definitions ∧
        ∀ d ∈ a.definitions, ∃ n, Within n [root] ∧ n.kind = .definition d := by
  have hdense (j : Json) (root : Expr) (h : Expr.decode j = .ok root) : root.Dense := by
    obtain ⟨k, hk⟩ := Expr.exists_numbered_of_decode h
    exact hk.dense
  refine ⟨hdense, fun text a h => ?_⟩
  obtain ⟨j, root, hparse, hroot, hdefinitions⟩ := Artifact.decode_eq_ok.mp h
  refine ⟨j, root, hparse, hroot, hdense j root hroot, hdefinitions, fun d hd => ?_⟩
  exact root.exists_definition (hdefinitions ▸ hd)

namespace Declared

/-- `class a(String $p = 'x') { { 'k' => undef } }` -/
def tree : Json :=
  .object [("^", .array [.string "class", .object [("#", .array [
    .string "name", .string "a",
    .string "params", .object [("#", .array [.string "p", .object [("#", .array [
      .string "type", .object [("^", .array [.string "qr", .string "String"])],
      .string "value", .string "x"])]])],
    .string "body", .object [("#", .array [.string "k", .null])]])]])]

/-- A class without parameters, as text. -/
def text : String :=
  "\x7b\"^\": [\"class\", \x7b\"#\": [\"name\", \"a\", \"body\", \x7b\"#\": [\"k\", null]\x7d]\x7d]\x7d"

/-- The type and the default of the parameter, a key, its value, their hash and the class: six nodes. -/
theorem dense_of_decode_class :
    (∃ root, Expr.decode tree = .ok root ∧ root.Dense ∧ root.nodes.length = 6) ∧
      ∃ (a : Artifact) (root : Expr), Artifact.decode text = .ok a ∧ a.definitions.length = 1 ∧
        root.Dense ∧ a.definitions = root.definitions := by
  obtain ⟨htree, htext⟩ := dense_of_decode
  constructor
  · have hdense := htree tree _ rfl
    exact ⟨_, rfl, hdense, hdense.root.symm⟩
  · have hlength : (Artifact.decode text).toOption.map (·.definitions.length) = some 1 := by
      decide +kernel
    rcases h : Artifact.decode text with e | a
    · rw [h] at hlength
      exact absurd hlength nofun
    · rw [h] at hlength
      obtain ⟨-, root, -, -, hdense, hdefinitions, -⟩ := htext text a h
      exact ⟨a, root, rfl, Option.some.inj hlength, hdense, hdefinitions⟩

end Declared

end Cascade
