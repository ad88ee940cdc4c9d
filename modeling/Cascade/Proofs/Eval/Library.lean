import Cascade.Node.World
import Cascade.Proofs.Eval.Instance
import Cascade.Proofs.Name
/-!
Resolution without any cache. A library holds all that a resolution may depend on, and every request
is worked out from it anew. The depth bounds how deep requests nest, so a class that needs itself
comes to no end whatever the depth, and an answer that is found at one depth stays the same at every
other.
-/
namespace Cascade

/-- Definitions and the values of globals. -/
structure Library where
  load : DefinitionKind → String → Except LoadError (Option Definition)
  global? : String → Option Value
  lookupGlobal : String → GlobalLookup

/-- A definition that has to be there. -/
def definitionOf (kind : DefinitionKind) (name : String) :
    Except LoadError (Option Definition) → Except EvalError Definition
  | .ok (some d) => .ok d
  | .ok none => .error (.notFound kind name)
  | .error e => .error (e.toEvalError kind name)

namespace Library

def find (L : Library) (kind : DefinitionKind) (name : String) : Except EvalError Definition :=
  definitionOf kind name (L.load kind name)

def resolveClass (L : Library) (r : Resolver Unit) (name : String) : Act Unit Nat :=
  let name := Name.normalize name
  Act.mapError (.compilation .hostClass name) do
    match L.find .hostClass name with
    | .error e => Act.error e
    | .ok d =>
      let i ← createInstance d none none
      resolveInstance r i
      return i

def resolveFunction (L : Library) (name : String) : Act Unit (Option Definition) :=
  let name := Name.normalize name
  match L.find .function name with
  | .ok d => return some d
  | .error (.notFound ..) => return none
  | .error e => Act.error (.compilation .function name e)

def outOfDepth (L : Library) : Resolver Unit :=
  { resolveClass := fun _ => throw .exhausted
    resolveFunction := fun _ => throw .exhausted
    invoke := fun _ _ => throw .exhausted
    global? := fun _ => L.global?
    lookupGlobal := fun _ => L.lookupGlobal
    registerSource := fun _ _ _ h => h }

def resolver (L : Library) : (depth : Nat) → Resolver Unit
  | 0 => L.outOfDepth
  | depth + 1 =>
    { L.outOfDepth with
      resolveClass := fun name => L.resolveClass (L.resolver depth) name
      resolveFunction := fun name => L.resolveFunction name
      invoke := fun d args => invokeFunction (L.resolver depth) d args }

/-- What is found for a class, with requests nested this deep at most. -/
def answer (L : Library) (depth : Nat) (name : String) : Except Fault (Option Instance) :=
  let r := ((L.resolver depth).resolveClass name).run (.start ())
  r.1.map r.2.view?

end Library

/-- How a resolution ends when that of its instance has ended. -/
def resolvedAs {η : Type} (kind : DefinitionKind) (name : String) (i : Nat)
    (r : Except Fault Unit × Machine η) : Except Fault Nat × Machine η :=
  ((r.1.map fun _ => i).mapError (Fault.map (.compilation kind name)), r.2)

/-- A function that is not there is none, and any other failure is one. -/
def functionOf (name : String) : Except EvalError Definition → Except Fault (Option Definition)
  | .ok d => .ok (some d)
  | .error (.notFound ..) => .ok none
  | .error e => .error (.error (.compilation .function name e))

section

variable {η η' : Type} {kind : DefinitionKind} {name : String} {i j : Nat}

theorem resolvedAs_ne {q : Except Fault Unit × Machine η} :
    (resolvedAs kind name i q).1 ≠ .error .exhausted ↔ q.1 ≠ .error .exhausted := by
  unfold resolvedAs
  rcases q.1 with (e | _) | u <;> simp [Except.map, Except.mapError, Fault.map]

theorem eq_of_resolvedAs {q : Except Fault Unit × Machine η}
    (h : (resolvedAs kind name i q).1 = .ok j) : j = i := by
  unfold resolvedAs at h
  rcases hq : q.1 with e | u
  · simp [hq, Except.map, Except.mapError] at h
  · simpa [hq, Except.map, Except.mapError, eq_comm] using h

theorem view?_resolvedAs (kind : DefinitionKind) (name : String) {q : Except Fault Unit × Machine η}
    {q' : Except Fault Unit × Machine η'} (h : q.1 = q'.1) (hv : q.2.view? i = q'.2.view? j) :
    (resolvedAs kind name i q).1.map (resolvedAs kind name i q).2.view? =
      (resolvedAs kind name j q').1.map (resolvedAs kind name j q').2.view? := by
  unfold resolvedAs
  rw [h]
  cases q'.1 with
  | error f => rfl
  | ok u => exact congrArg Except.ok hv

end

namespace Library

variable {L : Library} {r s : Resolver Unit} {m p : Machine Unit} {name : String} {d : Definition}

/-- A new instance of what is found under a name; messages call it by its label. -/
def build (L : Library) (r : Resolver Unit) (kind : DefinitionKind) (name label : String)
    (title : Option String) (seeds : Option (Table String Seed)) : Act Unit Nat :=
  Act.mapError (.compilation kind label) do
    match L.find kind name with
    | .error e => Act.error e
    | .ok d =>
      let i ← createInstance d title seeds
      resolveInstance r i
      return i

section Build

variable {kind : DefinitionKind} {label : String} {title : Option String}
  {seeds : Option (Table String Seed)}

theorem run_build_error {e : EvalError} (h : L.find kind name = .error e) (p : Machine Unit) :
    (L.build s kind name label title seeds).run p =
      (.error (.error (.compilation kind label e)), p) := by
  rw [build, run_mapError]
  simp only [h]
  rfl

theorem run_build (h : L.find kind name = .ok d) (p : Machine Unit) :
    (L.build s kind name label title seeds).run p = resolvedAs kind label p.instances.length
      ((resolveInstance s p.instances.length).run (p.withInstance d title seeds)) := by
  rw [build, run_mapError]
  simp only [h, run_bind, Machine.run_createInstance, resolvedAs]
  rcases (resolveInstance s p.instances.length).run (p.withInstance d title seeds)
    with ⟨f | u, p'⟩ <;> rfl

end Build

theorem run_resolveClass_error {e : EvalError}
    (h : L.find .hostClass (Name.normalize name) = .error e) (p : Machine Unit) :
    (L.resolveClass s name).run p =
      (.error (.error (.compilation .hostClass (Name.normalize name) e)), p) :=
  run_build_error h p

theorem run_resolveClass (h : L.find .hostClass (Name.normalize name) = .ok d) (p : Machine Unit) :
    (L.resolveClass s name).run p = resolvedAs .hostClass (Name.normalize name) p.instances.length
      ((resolveInstance s p.instances.length).run (p.withInstance d none none)) :=
  run_build h p

theorem answer_error {e : EvalError} (h : L.find .hostClass (Name.normalize name) = .error e)
    (depth : Nat) : L.answer (depth + 1) name =
      .error (.error (.compilation .hostClass (Name.normalize name) e)) :=
  congrArg (fun q => q.1.map q.2.view?) (run_resolveClass_error h (.start ()))

/-- What is found for a class is what its instance has come to. -/
theorem answer_succ (h : L.find .hostClass (Name.normalize name) = .ok d) (depth : Nat) :
    let q := resolvedAs .hostClass (Name.normalize name) 0
      ((resolveInstance (L.resolver depth) 0).run ((Machine.start ()).withInstance d none none))
    L.answer (depth + 1) name = q.1.map q.2.view? :=
  congrArg (fun q => q.1.map q.2.view?) (run_resolveClass h (.start ()))

theorem run_resolveFunction (name : String) (p : Machine Unit) : (L.resolveFunction name).run p =
    (functionOf (Name.normalize name) (L.find .function (Name.normalize name)), p) := by
  unfold resolveFunction
  simp only
  rcases L.find .function (Name.normalize name) with e | d
  · cases e <;> rfl
  · rfl

theorem resolveFunction_follows (name : String) (m p : Machine Unit) :
    ((L.resolveFunction name).run m).1 = ((L.resolveFunction name).run p).1 ∧
    Guard.free.Beyond m ((L.resolveFunction name).run m).2 p
      ((L.resolveFunction name).run p).2 := by
  rw [run_resolveFunction, run_resolveFunction]
  exact ⟨rfl, Guard.Holds.beyond (G := .free) trivial p⟩

theorem resolveClass_follows (hr : r.Follows Guard.free s) (hm : m.Numbered) (hp : p.Numbered)
    (hne : ((L.resolveClass s name).run p).1 ≠ .error .exhausted) :
    ((L.resolveClass r name).run m).1.map ((L.resolveClass r name).run m).2.view? =
      ((L.resolveClass s name).run p).1.map ((L.resolveClass s name).run p).2.view? ∧
    Guard.free.Beyond m ((L.resolveClass r name).run m).2 p ((L.resolveClass s name).run p).2 := by
  cases hd : L.find .hostClass (Name.normalize name) with
  | error e =>
    rw [run_resolveClass_error hd, run_resolveClass_error hd]
    exact ⟨rfl, Guard.Holds.beyond (G := .free) trivial p⟩
  | ok d =>
    rw [run_resolveClass hd] at hne
    rw [run_resolveClass hd, run_resolveClass hd]
    have hholds : Guard.free.Holds { m.withInstance d none none with host := () } := trivial
    obtain ⟨hresult, hq⟩ := hr.resolveInstance d none none ⟨trivial, hm, hp⟩ hholds trivial
      (resolvedAs_ne.mp hne)
    exact ⟨view?_resolvedAs _ _ hresult hq.view, trivial, trivial, hq.left, hq.right⟩

theorem resolver_global? (L : Library) (depth : Nat) (u : Unit) :
    (L.resolver depth).global? u = L.global? := by
  cases depth <;> rfl

theorem resolver_lookupGlobal (L : Library) (depth : Nat) (u : Unit) :
    (L.resolver depth).lookupGlobal u = L.lookupGlobal := by
  cases depth <;> rfl

/-- More depth changes no answer that was found with less. -/
theorem resolver_follows {depth depth' : Nat} (h : depth ≤ depth') :
    (L.resolver depth').Follows Guard.free (L.resolver depth) := by
  induction depth generalizing depth' with
  | zero =>
    exact
      { resolveClass _ _ hne := absurd rfl hne
        resolveFunction _ _ hne := absurd rfl hne
        invoke _ _ _ hne := absurd rfl hne
        global? _ _ := by rw [resolver_global?, resolver_global?]
        lookupGlobal _ _ := by rw [resolver_lookupGlobal, resolver_lookupGlobal]
        registerSource _ _ _ _ := ⟨trivial, trivial⟩ }
  | succ depth ih =>
    obtain ⟨depth', rfl⟩ : ∃ k, depth' = k + 1 := ⟨depth' - 1, by omega⟩
    have hr := ih (Nat.le_of_succ_le_succ h)
    exact
      { resolveClass name hready hne := resolveClass_follows hr hready.left hready.right hne
        resolveFunction name _ _ := resolveFunction_follows name _ _
        invoke d args hready hne := hr.invokeFunction d args hready hne
        global? _ _ := rfl
        lookupGlobal _ _ := rfl
        registerSource _ _ _ _ := ⟨trivial, trivial⟩ }

theorem start_numbered : (Machine.start () : Machine Unit).Numbered := by
  intro i hi
  simp [Machine.instance?, Machine.start] at hi

/-- Where the resolution takes place makes no difference to an answer. -/
theorem answer_eq {depth : Nat} (hp : p.Numbered)
    (hne : (((L.resolver depth).resolveClass name).run p).1 ≠ .error .exhausted) :
    L.answer depth name = (((L.resolver depth).resolveClass name).run p).1.map
      (((L.resolver depth).resolveClass name).run p).2.view? :=
  ((resolver_follows le_rfl).resolveClass name ⟨trivial, start_numbered, hp⟩ hne).1

theorem run_ne_of_answer_ne {depth : Nat} (h : L.answer depth name ≠ .error .exhausted) :
    (((L.resolver depth).resolveClass name).run (.start ())).1 ≠ .error .exhausted :=
  Fault.map_ne_exhausted.mp h

theorem answer_mono {depth depth' : Nat} (h : depth ≤ depth')
    (hne : L.answer depth name ≠ .error .exhausted) :
    L.answer depth' name = L.answer depth name :=
  ((resolver_follows h).resolveClass name ⟨trivial, start_numbered, start_numbered⟩
    (run_ne_of_answer_ne hne)).1

theorem answer_unique {depth depth' : Nat} (h : L.answer depth name ≠ .error .exhausted)
    (h' : L.answer depth' name ≠ .error .exhausted) :
    L.answer depth name = L.answer depth' name := by
  rcases Nat.le_total depth depth' with hle | hle
  · exact (answer_mono hle h).symm
  · exact answer_mono hle h'

theorem answer_normalize (L : Library) (depth : Nat) (name : String) :
    L.answer depth (Name.normalize name) = L.answer depth name := by
  cases depth with
  | zero => rfl
  | succ depth =>
    have h : L.resolveClass (L.resolver depth) (Name.normalize name) =
        L.resolveClass (L.resolver depth) name := by
      rw [resolveClass, resolveClass, Name.normalize_normalize]
    exact congrArg (fun x : Act Unit Nat => (x.run (.start ())).1.map (x.run (.start ())).2.view?) h

/-- There is a least depth at which an answer is found. -/
theorem exists_least_answer {depth : Nat} (h : L.answer depth name ≠ .error .exhausted) :
    ∃ k < depth, L.answer (k + 1) name ≠ .error .exhausted ∧
      L.answer k name = .error .exhausted := by
  induction depth with
  | zero => exact absurd rfl h
  | succ depth ih =>
    by_cases hk : L.answer depth name = .error .exhausted
    · exact ⟨depth, Nat.lt_succ_self _, h, hk⟩
    · obtain ⟨k, hlt, hfound, hnone⟩ := ih hk
      exact ⟨k, hlt.trans (Nat.lt_succ_self _), hfound, hnone⟩

end Library

end Cascade
