import Cascade.Proofs.Eval.Nodes
/-!
All nodes of expressions in one list. A node stands after those below it, and what is below one of its
parts stands before what is below the next. A node that occurs twice stands in the list twice, so the
list tells apart what only looks the same.
-/
namespace Cascade

variable {n p : Expr} {es es' : List Expr}

theorem sizeOf_lt_of_mem_pairs {es : List (Expr × Expr)}
    (h : p ∈ es.flatMap fun e => [e.1, e.2]) : sizeOf p < sizeOf es := by
  obtain ⟨⟨e, e'⟩, he, hp⟩ := List.mem_flatMap.mp h
  have hpair := List.sizeOf_lt_of_mem he
  simp only [Prod.mk.sizeOf_spec, List.mem_cons, List.not_mem_nil, or_false] at hpair hp
  rcases hp with rfl | rfl <;> omega

theorem Definition.sizeOf_lt_of_mem {d : Definition} (h : p ∈ d.exprs) : sizeOf p < sizeOf d := by
  obtain ⟨kind, name, params, parent, body, returns⟩ := d
  simp only [exprs, List.mem_append, List.mem_flatMap, Option.mem_toList] at h
  simp only [mk.sizeOf_spec]
  rcases h with (⟨⟨name, type, default, splat⟩, hq, hp⟩ | hp) | rfl
  · have hparam := List.sizeOf_lt_of_mem hq
    simp only [Param.exprs, List.mem_append, Option.mem_toList] at hp
    simp only [Param.mk.sizeOf_spec] at hparam
    rcases hp with rfl | rfl <;> simp only [Option.some.sizeOf_spec] at hparam <;> omega
  · have hbody := List.sizeOf_lt_of_mem hp
    omega
  · simp only [Option.some.sizeOf_spec]
    omega

/-- The parts of an expression are smaller than it. -/
theorem ExprKind.sizeOf_lt_of_mem {kind : ExprKind} (h : p ∈ kind.exprs) :
    sizeOf p < sizeOf kind := by
  have hlist {es : List Expr} (h : p ∈ es) : sizeOf p < sizeOf es := List.sizeOf_lt_of_mem h
  cases kind with
  | list es | block es | concat es | call _ es =>
    have hes : sizeOf p < sizeOf es := hlist h
    simp only [list.sizeOf_spec, block.sizeOf_spec, concat.sizeOf_spec, call.sizeOf_spec]
    omega
  | hash entries =>
    have hentries := sizeOf_lt_of_mem_pairs h
    simp only [hash.sizeOf_spec]
    omega
  | definition d =>
    have hd := Definition.sizeOf_lt_of_mem h
    simp only [definition.sizeOf_spec]
    omega
  | assignment target value =>
    simp only [exprs, List.mem_cons, List.not_mem_nil, or_false] at h
    simp only [assignment.sizeOf_spec]
    rcases h with rfl | rfl <;> omega
  | binary op left right =>
    simp only [exprs, List.mem_cons, List.not_mem_nil, or_false] at h
    simp only [binary.sizeOf_spec]
    rcases h with rfl | rfl <;> omega
  | access target keys =>
    simp only [access.sizeOf_spec]
    rcases List.mem_cons.mp h with rfl | h
    · omega
    · have hkeys := hlist h
      omega
  | conditional test thenBranch elseBranch negated =>
    simp only [exprs, List.mem_cons, List.mem_append] at h
    simp only [conditional.sizeOf_spec]
    rcases h with rfl | h | h
    · omega
    · have hthen := hlist h
      omega
    · have helse := hlist h
      omega
  | caseOf test options =>
    simp only [caseOf.sizeOf_spec]
    rcases List.mem_cons.mp h with rfl | h
    · omega
    · obtain ⟨⟨values, body⟩, ho, hp⟩ := List.mem_flatMap.mp h
      have hoption := List.sizeOf_lt_of_mem ho
      simp only [CaseOption.mk.sizeOf_spec] at hoption
      rcases List.mem_append.mp hp with hp | hp
      · have hvalues : sizeOf p < sizeOf values := hlist hp
        omega
      · have hbody : sizeOf p < sizeOf body := hlist hp
        omega
  | selector test entries =>
    simp only [selector.sizeOf_spec]
    rcases List.mem_cons.mp h with rfl | h
    · omega
    · have hentries := sizeOf_lt_of_mem_pairs h
      omega
  | resource typeName bodies =>
    simp only [resource.sizeOf_spec]
    rcases List.mem_cons.mp h with rfl | h
    · omega
    · obtain ⟨⟨title, attributes⟩, hb, hp⟩ := List.mem_flatMap.mp h
      have hbody := List.sizeOf_lt_of_mem hb
      simp only [ResourceBody.mk.sizeOf_spec] at hbody
      rcases List.mem_cons.mp hp with rfl | hp
      · omega
      · obtain ⟨⟨name, e⟩, he, rfl⟩ := List.mem_map.mp hp
        have hattribute := List.sizeOf_lt_of_mem he
        simp only [Prod.mk.sizeOf_spec] at hattribute
        dsimp only
        omega
  | ret value =>
    obtain rfl := Option.mem_toList.mp h
    simp only [ret.sizeOf_spec, Option.some.sizeOf_spec]
    omega
  | str inner | heredoc inner | paren inner | unary op inner =>
    obtain rfl := List.mem_singleton.mp h
    simp only [str.sizeOf_spec, heredoc.sizeOf_spec, paren.sizeOf_spec, unary.sizeOf_spec]
    omega
  | literal | typeReference | qualifiedName | «variable» | default | nop | regex | unsupported =>
    exact absurd h List.not_mem_nil

theorem Expr.sizeOf_lt_node {id : Nat} {kind : ExprKind} (h : p ∈ kind.exprs) :
    sizeOf p < sizeOf (Expr.node id kind) := by
  have hpart := ExprKind.sizeOf_lt_of_mem h
  simp only [node.sizeOf_spec]
  omega

/-- What holds of an expression if it holds of its parts, holds of all. -/
theorem Expr.of_parts {P : Expr → Prop}
    (h : ∀ id kind, (∀ p ∈ kind.exprs, P p) → P (.node id kind)) (e : Expr) : P e := by
  obtain ⟨id, kind⟩ := e
  exact h id kind fun p _ => of_parts h p
termination_by sizeOf e
decreasing_by exact sizeOf_lt_node ‹p ∈ kind.exprs›

/-- The nodes of a tree, each after all that are below it. -/
def Expr.nodes : Expr → List Expr
  | .node id kind => (kind.exprs.attach.flatMap fun p => p.1.nodes) ++ [.node id kind]
termination_by e => sizeOf e
decreasing_by exact sizeOf_lt_node p.2

/-- The nodes of several trees, one tree after the other. -/
def nodesIn (es : List Expr) : List Expr := es.flatMap Expr.nodes

@[simp] theorem nodesIn_nil : nodesIn [] = [] := rfl

@[simp] theorem nodesIn_append : nodesIn (es ++ es') = nodesIn es ++ nodesIn es' :=
  List.flatMap_append

theorem nodesIn_cons : nodesIn (n :: es) = n.nodes ++ nodesIn es := List.flatMap_cons

@[simp] theorem nodesIn_singleton : nodesIn [n] = n.nodes := by
  rw [nodesIn_cons, nodesIn_nil, List.append_nil]

theorem Expr.nodes_eq (e : Expr) : e.nodes = nodesIn e.kind.exprs ++ [e] := by
  obtain ⟨id, kind⟩ := e
  rw [Expr.nodes, nodesIn, Expr.kind, List.flatMap_def, List.flatMap_def, List.attach_map_val]

/-- What stands in the list are the nodes. -/
theorem mem_nodesIn : n ∈ nodesIn es ↔ Within n es := by
  constructor
  · rw [nodesIn, List.mem_flatMap]
    rintro ⟨e, he, hn⟩
    induction e using Expr.of_parts generalizing es with
    | h id kind ih =>
      rw [Expr.nodes_eq, List.mem_append, List.mem_singleton, nodesIn, List.mem_flatMap] at hn
      rcases hn with ⟨p, hp, hn⟩ | rfl
      · exact .part he (ih p hp hp hn)
      · exact .self he
  · intro h
    rw [nodesIn, List.mem_flatMap]
    induction h with
    | self hn => exact ⟨n, hn, by simp [Expr.nodes_eq]⟩
    | part he _ ih =>
      refine ⟨_, he, ?_⟩
      rw [Expr.nodes_eq]
      exact List.mem_append_left _ (List.mem_flatMap.mpr ih)

theorem mem_numbers {k : Nat} : k ∈ numbers es ↔ k ∈ (nodesIn es).map Expr.id := by
  simp only [numbers, Set.mem_ofPred_eq, List.mem_map, mem_nodesIn]

/-- The tree below a node is a stretch of the whole. -/
theorem Within.nodes_sublist (h : Within n es) : n.nodes.Sublist (nodesIn es) := by
  have htree {e : Expr} {es : List Expr} (he : e ∈ es) : e.nodes.Sublist (nodesIn es) :=
    List.sublist_flatten_of_mem (List.mem_map_of_mem he)
  induction h with
  | self hn => exact htree hn
  | @part e _ he _ ih =>
    have hbelow : (nodesIn e.kind.exprs).Sublist e.nodes :=
      e.nodes_eq ▸ List.sublist_append_left _ _
    exact (ih.trans hbelow).trans (htree he)

theorem disjoint_numbers (h : ((nodesIn (es ++ es')).map Expr.id).Nodup) :
    Disjoint (numbers es) (numbers es') := by
  rw [nodesIn_append, List.map_append] at h
  exact Set.disjoint_left.mpr fun _ hk hk' =>
    List.disjoint_of_nodup_append h (mem_numbers.mp hk) (mem_numbers.mp hk')

/-- Trees in which no number occurs twice are apart, if each of them is. -/
theorem Apart.of_forall (hall : ∀ e ∈ es, (e.nodes.map Expr.id).Nodup → Apart [e])
    (h : ((nodesIn es).map Expr.id).Nodup) : Apart es := by
  induction es with
  | nil => exact .nil
  | cons e es ih =>
    have hdisjoint : Disjoint (numbers [e]) (numbers es) := disjoint_numbers h
    rw [nodesIn_cons, List.map_append] at h
    refine apart_append.mpr ⟨hall e List.mem_cons_self h.of_append_left, ?_, hdisjoint⟩
    exact ih (fun e he => hall e (List.mem_cons_of_mem _ he)) h.of_append_right

theorem Expr.apart_of_nodup (e : Expr) : (e.nodes.map Expr.id).Nodup → Apart [e] := by
  induction e using Expr.of_parts with
  | h id kind ih =>
    intro h
    rw [Expr.nodes_eq, List.map_append, List.map_singleton, ← List.concat_eq_append,
      List.nodup_concat] at h
    exact apart_node.mpr ⟨.of_forall ih h.2, fun hk => h.1 (mem_numbers.mp hk)⟩

/-- No two nodes have the same number if the list of all has none twice. -/
theorem Apart.of_nodup (h : ((nodesIn es).map Expr.id).Nodup) : Apart es :=
  .of_forall (fun e _ => e.apart_of_nodup) h

end Cascade
