import Cascade.Proofs.Node.Globals
import Cascade.Proofs.Node.Inheritance
/-!
Probes for variables. A variable is looked up in the scope, in the class that its name or the scope leads
to, and among the globals; a probe looks in the scope and among the globals only. So it misses what is
read from a class, unless the whole name is also that of a variable of the scope or of a global.
-/
namespace Cascade

variable {η : Type}

/-- The call `defined('$name')`. -/
def probe (id arg : Nat) (name : String) : Expr :=
  .node id (.call "defined" [.node arg (.literal (.string ("$" ++ name)))])

namespace Env

/-- What a probe looks for: a variable of the scope under the name as it is spelled, or a global. -/
def sees (env : Env η) (name : String) (m : Machine η) : Bool :=
  (env.scope.lookup m name).isSome || (env.resolver.lookupGlobal m.host name).exists

/-- A value is read from a class: from the one that is being evaluated, if the name is qualified with it,
from another one that it is qualified with, or from the one that is inherited. -/
inductive ReadsClass (env : Env η) (name : String) (w : Value) (m : Machine η) : Prop
  | own {owner property : String} : Name.qualifier? (Name.bare name) = some (owner, property) →
      (env.scope.owner m).any (fun o => Name.sameFold o owner) = true →
      env.scope.lookup m property = some w → env.ReadsClass name w m
  | other {owner property : String} {m' : Machine η} :
      Name.qualifier? (Name.bare name) = some (owner, property) →
      (env.classValue? owner property).run m = (.ok (some w), m') → env.ReadsClass name w m
  | inherited {parent : String} {m' : Machine η} : Name.qualifier? name = none →
      env.scope.lookup m name = none → env.scope.parentClass m = some parent →
      (env.classValue? parent name).run m = (.ok (some w), m') → env.ReadsClass name w m

variable {env : Env η} {name : String} {m m' : Machine η} {w : Value}

theorem eq_of_getD {o : Option Value} (h : o.getD .undef = w) (hw : w ≠ .undef) : o = some w := by
  cases o with
  | none => exact absurd h.symm hw
  | some v => exact congrArg some h

theorem readsClass_of_qualified {owner property : String}
    (hq : Name.qualifier? (Name.bare name) = some (owner, property))
    (h : (env.lookupVariable name).run m = (.ok w, m')) (hw : w ≠ .undef) :
    env.ReadsClass name w m := by
  unfold lookupVariable at h
  simp only [hq] at h
  rw [run_bind, run_get] at h
  simp only at h
  split at h
  next howner =>
    obtain ⟨hv, -⟩ := Prod.mk.inj h
    exact .own hq howner (eq_of_getD (Except.ok.inj hv) hw)
  next =>
    obtain ⟨o, m₁, ho, h⟩ := run_bind_eq_ok.mp h
    obtain ⟨hv, rfl⟩ := Prod.mk.inj h
    rw [eq_of_getD (Except.ok.inj hv) hw] at ho
    exact .other hq ho

theorem origin_of_unqualified (hq : Name.qualifier? (Name.bare name) = none)
    (h : (env.lookupVariable name).run m = (.ok w, m')) (hw : w ≠ .undef) :
    (env.scope.lookup m name).isSome ∨ env.resolver.global? m'.host (Name.bare name) = some w ∨
      env.ReadsClass name w m := by
  -- In the end, without a value from anywhere else, the global is what there is.
  have hlast {t : Machine η} (h : ((.ok ((env.resolver.global? t.host (Name.bare name)).getD .undef) :
      Except Fault Value), t) = (.ok w, m')) :
      env.resolver.global? m'.host (Name.bare name) = some w := by
    obtain ⟨hv, rfl⟩ := Prod.mk.inj h
    exact eq_of_getD (Except.ok.inj hv) hw
  unfold lookupVariable at h
  simp only [hq] at h
  cases hg : Name.isGlobal name with
  | true =>
    rw [hg, if_pos rfl] at h
    exact .inr (.inl (hlast h))
  | false =>
    have hbare := Name.bare_of_not_isGlobal hg
    rw [hg, if_neg Bool.false_ne_true, run_bind, run_get] at h
    simp only at h
    cases hlocal : env.scope.lookup m name with
    | some v => exact .inl rfl
    | none =>
      rw [hbare, hlocal] at h
      simp only at h
      rw [run_bind, run_get] at h
      simp only at h
      cases hparent : env.scope.parentClass m with
      | none =>
        rw [hparent] at h
        exact .inr (.inl (hlast (hbare.symm ▸ h)))
      | some parent =>
        rw [hparent] at h
        obtain ⟨o, m₁, ho, h⟩ := run_bind_eq_ok.mp h
        cases o with
        | some v =>
          obtain ⟨hv, rfl⟩ := Prod.mk.inj h
          obtain rfl := Except.ok.inj hv
          exact .inr (.inr (.inherited (hbare ▸ hq) hlocal hparent ho))
        | none => exact .inr (.inl (hlast (hbare.symm ▸ h)))

/-- A value of a variable is one of the scope, or a global, or read from a class. -/
theorem origin_of_lookupVariable (h : (env.lookupVariable name).run m = (.ok w, m'))
    (hw : w ≠ .undef) : (env.scope.lookup m name).isSome ∨
      env.resolver.global? m'.host (Name.bare name) = some w ∨ env.ReadsClass name w m := by
  cases hq : Name.qualifier? (Name.bare name) with
  | some q => exact .inr (.inr (readsClass_of_qualified hq h hw))
  | none => exact origin_of_unqualified hq h hw

end Env

section Evaluation

variable {env : Env η} {name : String} {m : Machine η} {id arg : Nat}

theorem run_defined (env : Env η) (node : NodeRef) (name : String) (m : Machine η) :
    (Builtin.defined.apply env node [.string ("$" ++ name)]).run m =
      (.ok (.bool (env.sees name m)), m) := by
  have hdefined : (Builtin.isDefined env (.string ("$" ++ name))).run m =
      (.ok (env.sees name m), m) := by
    have hlist : ("$" ++ name).toList = '$' :: name.toList := by simp [String.toList_append]
    unfold Builtin.isDefined
    simp only [hlist, String.ofList_toList]
    rfl
  have hany : (Builtin.anyDefined env [.string ("$" ++ name)]).run m =
      (.ok (env.sees name m), m) := by
    rw [Builtin.anyDefined, run_bind, hdefined]
    cases env.sees name m <;> rfl
  change (Eval.ofAct (Builtin.anyDefined env _) >>= fun b => pure (Value.bool b)).run m = _
  rw [run_bind, run_ofAct, hany]
  rfl

theorem run_evalAll_literal (env : Env η) (v : Value) (h : m.cell env.copy arg = .unresolved) :
    (evalAll env [.node arg (.literal v)]).run m = (.ok [v],
      (m.setCell env.copy arg .resolving).setCell env.copy arg (.ofOutcome (.ok v))) := by
  rw [evalAll, run_bind, eval, run_memo_unresolved h, evalKind]
  rfl

/-- A probe that is evaluated for the first time answers what it sees. -/
theorem eval_probe (hcall : m.cell env.copy id = .unresolved)
    (harg : m.cell env.copy arg = .unresolved) (hne : id ≠ arg) :
    ((eval env (probe id arg name)).run m).1 = .ok (.bool (env.sees name m)) := by
  have hname : Builtin.ofName? (Name.bare "defined") = some .defined := by decide
  have harg' : (m.setCell env.copy id .resolving).cell env.copy arg = .unresolved :=
    (Machine.cell_setCell ..).trans ((if_neg fun h => hne h.2).trans harg)
  have hargs := run_evalAll_literal env (.string ("$" ++ name)) harg'
  rw [probe, eval, run_memo_unresolved hcall, evalKind]
  simp only [hname]
  rw [run_bind, hargs]
  exact congrArg Prod.fst (run_defined env _ name _)

end Evaluation

/-- What goes on in a host changes no global. -/
theorem Host.Further.global?_eq {h h' : Host} (hf : h.Further h') (name : String) :
    h'.node.global? name = h.node.global? name := by
  simp only [Node.global?, Node.factLike?, Node.effectiveFacts, hf.onward.compiled,
    hf.onward.alike.identity]

theorem GlobalLookup.exists_iff {l : GlobalLookup} : l.exists = true ↔ l ≠ .missing := by
  cases l <;> simp [GlobalLookup.exists]

section Node

variable {depth copy id call arg : Nat} {scope : Scope} {name : String} {m : Machine Host} {w : Value}

/-- A node has a global where a lookup of it finds something. -/
theorem Node.sees_iff : Env.sees ⟨Node.resolver depth, scope, copy⟩ name m = true ↔
    (scope.lookup m name).isSome ∨ (m.host.node.global? name).isSome := by
  have hlookup : (Node.resolver depth).lookupGlobal m.host name = m.host.node.lookupGlobal name := by
    cases depth <;> rfl
  have hexists : (m.host.node.lookupGlobal name).exists = true ↔
      (m.host.node.global? name).isSome := by
    rw [GlobalLookup.exists_iff, Ne, Node.lookupGlobal_eq_missing_iff, Node.globalAt?,
      Option.map_eq_none_iff, ← Ne, Option.ne_none_iff_isSome]
  rw [Env.sees, Bool.or_eq_true, hlookup, hexists]

/-- Where a variable has a value, a probe for it answers whether the scope has a variable under the name as
it is spelled or there is a global of that name, and that is so unless the value is read from a class. -/
theorem probe_of_value (hid : m.cell copy id = .unresolved) (hcall : m.cell copy call = .unresolved)
    (harg : m.cell copy arg = .unresolved) (hne : call ≠ arg)
    (h : ((eval ⟨Node.resolver depth, scope, copy⟩ (.node id (.variable name))).run m).1 = .ok w)
    (hw : w ≠ .undef) :
    ∃ b, ((eval ⟨Node.resolver depth, scope, copy⟩ (probe call arg name)).run m).1 = .ok (.bool b) ∧
      (b = true ↔ (scope.lookup m name).isSome ∨ (m.host.node.global? name).isSome) ∧
      (b = true ∨ Env.ReadsClass ⟨Node.resolver depth, scope, copy⟩ name w
        (m.setCell copy id .resolving)) := by
  refine ⟨_, eval_probe hcall harg hne, Node.sees_iff, ?_⟩
  have hfurther : m.host.Further ((eval ⟨Node.resolver depth, scope, copy⟩
      (.node id (.variable name))).run m).2.host :=
    ((uniform_eval _).spares (Node.resolver_spares depth) (s := ⟨scope, copy⟩) rfl m).host
  have hglobal (host : Host) (name : String) :
      (Node.resolver depth).global? host name = host.node.global? name := by
    cases depth <;> rfl
  rw [eval, run_memo_unresolved hid, evalKind_variable, run_ofAct] at h hfurther
  rcases hrun : (Env.lookupVariable ⟨Node.resolver depth, scope, copy⟩ name).run
    (m.setCell copy id .resolving) with ⟨f | v, m'⟩
  · rw [hrun] at h
    cases h
  · rw [hrun] at h hfurther
    obtain rfl : v = w := Except.ok.inj h
    rcases Env.origin_of_lookupVariable hrun hw with hlocal | hfound | hreads
    · exact .inl (Node.sees_iff.mpr (.inl hlocal))
    · have hbare : m'.host.node.global? (Name.bare name) = m'.host.node.global? name := by
        simp [Node.global?]
      refine .inl (Node.sees_iff.mpr (.inr (Option.isSome_iff_exists.mpr ⟨v, ?_⟩)))
      rw [← hfurther.global?_eq]
      exact hbare.symm.trans ((hglobal _ _).symm.trans hfound)
    · exact .inr hreads

end Node

/-- An outcome that is a text. -/
theorem Outcome.eq_of_text {o : Outcome} {s : String} (h : o.toOption.bind Value.asString? = some s) :
    o = .ok (.string s) := by
  rcases o with i | v
  · cases h
  · cases v with
    | string t => exact congrArg (fun t => Except.ok (Value.string t)) (Option.some.inj h)
    | _ => cases h

namespace Machine

set_option maxRecDepth 10000 in
/-- A global is found under a name with `::` before it. -/
theorem probe_of_hostname :
    ((eval ⟨Node.resolver 3, .frame, 0⟩ (.node 0 (.variable "::hostname"))).run descendants).1 =
      .ok (.string "n0") ∧
    ((eval ⟨Node.resolver 3, .frame, 0⟩ (probe 1 2 "::hostname")).run descendants).1 =
      .ok (.bool true) := by
  have hvalue : ((eval ⟨Node.resolver 3, .frame, 0⟩ (.node 0 (.variable "::hostname"))).run
      descendants).1 = .ok (.string "n0") := Outcome.eq_of_text (by decide +kernel)
  have hglobal : (descendants.host.node.global? "::hostname").isSome := by decide +kernel
  have hone : descendants.cell 0 1 = .unresolved := rfl
  have htwo : descendants.cell 0 2 = .unresolved := rfl
  obtain ⟨b, hprobe, hb, -⟩ := probe_of_value rfl hone htwo (by decide) hvalue nofun
  rw [hb.mpr (.inr hglobal)] at hprobe
  exact ⟨hvalue, hprobe⟩

set_option maxRecDepth 10000 in
/-- The variable `v` of `far` has a value under its qualified name, and in the body of a class that inherits
`far`, but a probe finds it under neither name. -/
theorem far_unprobed :
    (((eval ⟨Node.resolver 3, .frame, 0⟩ (.node 0 (.variable "far::v"))).run descendants).1 =
        .ok (.string "far") ∧
      ((eval ⟨Node.resolver 3, .frame, 0⟩ (probe 1 2 "far::v")).run descendants).1 =
        .ok (.bool false)) ∧
    ((eval ⟨Node.resolver 3, .object 0, 0⟩ (.node 0 (.variable "v"))).run begun).1 =
        .ok (.string "far") ∧
      ((eval ⟨Node.resolver 3, .object 0, 0⟩ (probe 1 2 "v")).run begun).1 = .ok (.bool false) := by
  refine ⟨⟨Outcome.eq_of_text (by decide +kernel), ?_⟩, Outcome.eq_of_text (by decide +kernel), ?_⟩
  · have hunseen : Env.sees ⟨Node.resolver 3, .frame, 0⟩ "far::v" descendants = false := by
      decide +kernel
    rw [eval_probe rfl rfl (by decide), hunseen]
  · have hunseen : Env.sees ⟨Node.resolver 3, .object 0, 0⟩ "v" begun = false := by decide +kernel
    rw [eval_probe rfl rfl (by decide), hunseen]

end Machine

end Cascade
