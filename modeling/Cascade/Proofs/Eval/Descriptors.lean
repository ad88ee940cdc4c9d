import Cascade.Proofs.Eval.Isolation
/-!
Descriptions of the core types, nested to any depth, and what the check of values against them comes to.
It admits the instances of a type, but for tuples: of those it knows the first component only, and wants
every element to be an instance of that.
-/
namespace Cascade

inductive Descriptor
  | any
  | undef
  | notUndef
  | string
  | boolean
  | integer (low high : Option Int64)
  | float
  | numeric
  | hash
  | enum (texts : List String)
  | array (element : Descriptor)
  | tuple (components : List Descriptor)
  | optional (inner : Descriptor)
  | variant (options : List Descriptor)

namespace Descriptor

def name : Descriptor → String
  | any => "Any"
  | undef => "Undef"
  | notUndef => "NotUndef"
  | string => "String"
  | boolean => "Boolean"
  | integer .. => "Integer"
  | float => "Float"
  | numeric => "Numeric"
  | hash => "Hash"
  | enum _ => "Enum"
  | array _ => "Array"
  | tuple _ => "Tuple"
  | optional _ => "Optional"
  | variant _ => "Variant"

/-- A bound that is left open is left out, or `default` before an upper bound. -/
def bounds : (low high : Option Int64) → List Value
  | none, none => []
  | some low, none => [.integer low]
  | none, some high => [.default, .integer high]
  | some low, some high => [.integer low, .integer high]

mutual
def params : Descriptor → List Value
  | any | undef | notUndef | string | boolean | float | numeric | hash => []
  | integer low high => bounds low high
  | enum texts => texts.map .string
  | array t | optional t => [.type t.name t.params]
  | tuple ts | variant ts => paramsOf ts

def paramsOf : List Descriptor → List Value
  | [] => []
  | t :: ts => .type t.name t.params :: paramsOf ts
end

/-- The descriptor as a value of the language. -/
def value (t : Descriptor) : Value := .type t.name t.params

def typeRef (t : Descriptor) : TypeRef := ⟨t.name, t.params⟩

/-- The instances of a type. Without texts `Enum` is the type of all strings. -/
inductive Contains : Descriptor → Value → Prop
  | any (v : Value) : any.Contains v
  | undef : undef.Contains .undef
  | notUndef {v : Value} : v.isUndef = false → notUndef.Contains v
  | string (s : String) : string.Contains (.string s)
  | boolean (b : Bool) : boolean.Contains (.bool b)
  | integer {low high : Option Int64} {n : Int64} : (∀ b, low = some b → b ≤ n) →
      (∀ b, high = some b → n ≤ b) → (integer low high).Contains (.integer n)
  | float (x : Float) : float.Contains (.float x)
  | numericInteger (n : Int64) : numeric.Contains (.integer n)
  | numericFloat (x : Float) : numeric.Contains (.float x)
  | hash (entries : Table String Value) : hash.Contains (.hash entries)
  | enum {texts : List String} {s : String} : texts = [] ∨ s ∈ texts →
      (enum texts).Contains (.string s)
  | array {t : Descriptor} {vs : List Value} : (∀ v ∈ vs, t.Contains v) →
      (array t).Contains (.array vs)
  | tuple {ts : List Descriptor} {vs : List Value} : ts.length = vs.length →
      (∀ p ∈ ts.zip vs, p.1.Contains p.2) → (tuple ts).Contains (.array vs)
  | optionalUndef (t : Descriptor) : (optional t).Contains .undef
  | optional {t : Descriptor} {v : Value} : t.Contains v → (optional t).Contains v
  | variant {ts : List Descriptor} {t : Descriptor} {v : Value} : t ∈ ts → t.Contains v →
      (variant ts).Contains v

mutual
/-- What the check takes a type for: a tuple for an array of its first component. -/
def coarse : Descriptor → Descriptor
  | array t => array t.coarse
  | tuple [] => array any
  | tuple (t :: _) => array t.coarse
  | optional t => optional t.coarse
  | variant ts => variant (coarseOf ts)
  | t => t

def coarseOf : List Descriptor → List Descriptor
  | [] => []
  | t :: ts => t.coarse :: coarseOf ts
end

/-- Every tuple has components whose instances its first component has too, as the check takes it. -/
inductive Homogeneous : Descriptor → Prop
  | array {t : Descriptor} : t.Homogeneous → (array t).Homogeneous
  | noComponents : (tuple []).Homogeneous
  | tuple {t : Descriptor} {ts : List Descriptor} : t.Homogeneous →
      (∀ u ∈ ts, ∀ v, u.Contains v → t.coarse.Contains v) → (tuple (t :: ts)).Homogeneous
  | optional {t : Descriptor} : t.Homogeneous → (optional t).Homogeneous
  | variant {ts : List Descriptor} : (∀ t ∈ ts, t.Homogeneous) → (variant ts).Homogeneous
  | core {t : Descriptor} : t.coarse = t → t.Homogeneous

theorem coarseOf_eq_map (ts : List Descriptor) : coarseOf ts = ts.map coarse := by
  induction ts with
  | nil => rfl
  | cons t ts ih => rw [coarseOf, ih, List.map_cons]

variable {t : Descriptor} {ts : List Descriptor} {v : Value}

theorem withinBounds_iff {low high : Option Int64} {n : Int64} :
    Value.withinBounds (bounds low high) n = true ↔
      (∀ b, low = some b → b ≤ n) ∧ ∀ b, high = some b → n ≤ b := by
  cases low <;> cases high <;> simp [Value.withinBounds, bounds, Value.bound?]

theorem admits_enum_iff {texts : List String} {s : String} :
    (enum texts).value.admits (.string s) = true ↔ texts = [] ∨ s ∈ texts := by
  change ((texts.map Value.string).isEmpty ||
    (texts.map Value.string).any (·.asString? == some s)) = true ↔ _
  simp [Value.asString?]

/-- Whatever the elements are held against, an array is admitted if all of them are. -/
theorem all_admits_iff {u : Descriptor} {vs : List Value}
    (h : ∀ v, t.value.admits v = true ↔ u.Contains v) :
    vs.all t.value.admits = true ↔ (array u).Contains (.array vs) := by
  rw [List.all_eq_true]
  constructor
  · exact fun hall => .array fun v hv => (h v).mp (hall v hv)
  · intro hcontains
    cases hcontains with
    | array hall => exact fun v hv => (h v).mpr (hall v hv)

mutual
/-- The check admits the instances of what it takes a type for. -/
theorem admits_iff : ∀ (t : Descriptor) (v : Value), t.value.admits v = true ↔ t.coarse.Contains v
  | any, v => ⟨fun _ => .any v, fun _ => rfl⟩
  | undef, v => by
    cases v with
    | undef => exact ⟨fun _ => .undef, fun _ => rfl⟩
    | _ => exact ⟨nofun, nofun⟩
  | notUndef, v => by
    change (!v.isUndef) = true ↔ notUndef.Contains v
    rw [Bool.not_eq_true']
    exact ⟨.notUndef, fun | .notUndef h => h⟩
  | string, v => by
    cases v with
    | string s => exact ⟨fun _ => .string s, fun _ => rfl⟩
    | _ => exact ⟨nofun, nofun⟩
  | boolean, v => by
    cases v with
    | bool b => exact ⟨fun _ => .boolean b, fun _ => rfl⟩
    | _ => exact ⟨nofun, nofun⟩
  | integer low high, v => by
    cases v with
    | integer n =>
      exact withinBounds_iff.trans ⟨fun h => .integer h.1 h.2, fun | .integer h h' => ⟨h, h'⟩⟩
    | _ => exact ⟨nofun, nofun⟩
  | float, v => by
    cases v with
    | float x => exact ⟨fun _ => .float x, fun _ => rfl⟩
    | _ => exact ⟨nofun, nofun⟩
  | numeric, v => by
    cases v with
    | integer n => exact ⟨fun _ => .numericInteger n, fun _ => rfl⟩
    | float x => exact ⟨fun _ => .numericFloat x, fun _ => rfl⟩
    | _ => exact ⟨nofun, nofun⟩
  | hash, v => by
    cases v with
    | hash entries => exact ⟨fun _ => .hash entries, fun _ => rfl⟩
    | _ => exact ⟨nofun, nofun⟩
  | enum texts, v => by
    cases v with
    | string s => exact admits_enum_iff.trans ⟨.enum, fun | .enum h => h⟩
    | _ => exact ⟨nofun, nofun⟩
  | array t, v => by
    cases v with
    | array vs => exact all_admits_iff (admits_iff t)
    | _ => exact ⟨nofun, nofun⟩
  | tuple [], v => by
    cases v with
    | array vs => exact ⟨fun _ => .array fun v _ => .any v, fun _ => rfl⟩
    | _ => exact ⟨nofun, nofun⟩
  | tuple (t :: ts), v => by
    cases v with
    | array vs => exact all_admits_iff (admits_iff t)
    | _ => exact ⟨nofun, nofun⟩
  | optional t, v => by
    change (v.isUndef || t.value.admits v) = true ↔ (optional t.coarse).Contains v
    rw [Bool.or_eq_true, admits_iff t v]
    constructor
    · rintro (h | h)
      · cases v <;> first | exact .optionalUndef _ | cases h
      · exact .optional h
    · intro h
      cases h with
      | optionalUndef => exact .inl rfl
      | optional h => exact .inr h
  | variant ts, v => by
    change Value.anyAdmits (paramsOf ts) v = true ↔ (variant (coarseOf ts)).Contains v
    rw [anyAdmits_iff ts v, coarseOf_eq_map]
    constructor
    · rintro ⟨t, ht, h⟩
      exact .variant (List.mem_map_of_mem ht) h
    · intro h
      cases h with
      | variant hu h =>
        obtain ⟨t, ht, rfl⟩ := List.mem_map.mp hu
        exact ⟨t, ht, h⟩

theorem anyAdmits_iff : ∀ (ts : List Descriptor) (v : Value),
    Value.anyAdmits (paramsOf ts) v = true ↔ ∃ t ∈ ts, t.coarse.Contains v
  | [], v => by simp [paramsOf, Value.anyAdmits]
  | t :: ts, v => by
    rw [paramsOf, Value.anyAdmits, Bool.or_eq_true, anyAdmits_iff ts v, List.exists_mem_cons_iff]
    exact or_congr_left (admits_iff t v)
end

theorem accepts_iff : t.typeRef.accepts v = true ↔ t.coarse.Contains v := admits_iff t v

namespace Homogeneous

theorem of_array (h : Homogeneous (.array t)) : t.Homogeneous := by
  cases h with
  | array h => exact h
  | core h => exact .core (Descriptor.array.inj h)

theorem of_optional (h : Homogeneous (.optional t)) : t.Homogeneous := by
  cases h with
  | optional h => exact h
  | core h => exact .core (Descriptor.optional.inj h)

theorem of_variant (h : Homogeneous (.variant ts)) (ht : t ∈ ts) : t.Homogeneous := by
  cases h with
  | variant h => exact h t ht
  | core h =>
    have hts : ts.map coarse = ts.map id := by
      rw [List.map_id, ← coarseOf_eq_map]
      exact Descriptor.variant.inj h
    exact .core (List.map_inj_left.mp hts t ht)

/-- A tuple is taken for an array of its first component, which has the instances of the others. -/
theorem of_tuple (h : Homogeneous (.tuple (t :: ts))) :
    t.Homogeneous ∧ ∀ u ∈ ts, ∀ v, u.Contains v → t.coarse.Contains v := by
  cases h with
  | tuple ht hts => exact ⟨ht, hts⟩
  | core h => exact absurd h nofun

/-- For a homogeneous type the check has no false mismatches. -/
theorem coarse_of_contains (ht : t.Homogeneous) (h : t.Contains v) : t.coarse.Contains v := by
  induction h with
  | array _ ih => exact .array fun v hv => ih v hv ht.of_array
  | @tuple ts vs hlength hall ih =>
    cases ts with
    | nil => exact .array fun v _ => .any v
    | cons t ts =>
      obtain ⟨hfirst, hothers⟩ := ht.of_tuple
      refine .array fun v hv => ?_
      -- Every element has a component, and that is the first one or has instances of the first only.
      obtain ⟨u, hu⟩ : ∃ u, (u, v) ∈ (t :: ts).zip vs := by
        obtain ⟨i, hi, rfl⟩ := List.getElem_of_mem hv
        have hzip : i < ((t :: ts).zip vs).length := by simpa [hlength] using hi
        have hmem := List.getElem_mem hzip
        rw [List.getElem_zip] at hmem
        exact ⟨_, hmem⟩
      rcases List.mem_cons.mp (List.of_mem_zip hu).1 with rfl | hmem
      · exact ih _ hu hfirst
      · exact hothers u hmem v (hall _ hu)
  | optionalUndef => exact .optionalUndef _
  | optional _ ih => exact .optional (ih ht.of_optional)
  | variant hmem _ ih =>
    have hcoarse := List.mem_map_of_mem (f := coarse) hmem
    exact .variant (coarseOf_eq_map _ ▸ hcoarse) (ih (ht.of_variant hmem))
  | any v => exact .any v
  | undef => exact .undef
  | notUndef h => exact .notUndef h
  | string s => exact .string s
  | boolean b => exact .boolean b
  | integer hlow hhigh => exact .integer hlow hhigh
  | float x => exact .float x
  | numericInteger n => exact .numericInteger n
  | numericFloat x => exact .numericFloat x
  | hash entries => exact .hash entries
  | enum h => exact .enum h

end Homogeneous

section Checks

variable {η : Type} {env : Env η}

/-- A parameter with a type and a value has a hint of a mismatch if the check does not admit the value. -/
theorem mismatch_iff {number : Nat} {i : Instance} {p : Param} {m m' : Machine η} {q : Property}
    (h : (resolveParam env number i p).run m = (.ok q, m')) (ht : q.type = some t.typeRef)
    (hv : q.value = some v) :
    (∃ expected actual, .typeMismatch expected actual ∈ q.hints) ↔ ¬t.coarse.Contains v := by
  have hsound : q.Sound := by
    rcases gives_resolveParam env number i p m with hfail | ⟨q', hq, hsound⟩
    · rw [h] at hfail
      cases hfail
    · rw [h] at hq
      cases hq
      exact hsound
  simp only [hsound.mismatch, ht, hv, ← accepts_iff, Bool.not_eq_true]
  simp

/-- The result of a call is held against the declared type. -/
theorem run_checkReturn {d : Definition} {e : Expr} {m m' : Machine η} (hreturns : d.returns = some e)
    (h : (Eval.settle (eval env e)).run m = (.ok t.value, m')) :
    (checkReturn env d v).run m = (if t.typeRef.accepts v then .ok ()
      else .error (.error (.returnType d.name t.typeRef.display v.typeName)), m') := by
  unfold checkReturn
  rw [hreturns]
  simp only [run_bind, h]
  change (if !t.typeRef.accepts v then Act.error _ else pure () : Act η Unit).run m' = _
  cases t.typeRef.accepts v <;> rfl

end Checks

/-- An instance of a type is admitted if it is one of what the check takes the type for, and otherwise it
is a mismatch: as the value of a parameter it has a hint, and as the result of a call it is an error.
What is taken for something else is a tuple of components that its first one does not cover. -/
theorem accepts_instance_iff (h : t.Contains v) :
    (t.typeRef.accepts v = true ↔ t.coarse.Contains v) ∧
    (t.Homogeneous → t.typeRef.accepts v = true) ∧
    (∀ {η : Type} (env : Env η) (number : Nat) (i : Instance) (p : Param) (m m' : Machine η)
      (q : Property), (resolveParam env number i p).run m = (.ok q, m') →
      q.type = some t.typeRef → q.value = some v →
      ((∃ expected actual, .typeMismatch expected actual ∈ q.hints) ↔ ¬t.coarse.Contains v)) ∧
    ∀ {η : Type} (env : Env η) (d : Definition) (e : Expr) (m m' : Machine η),
      d.returns = some e → (Eval.settle (eval env e)).run m = (.ok t.value, m') →
      (((checkReturn env d v).run m).1 = .ok () ↔ t.coarse.Contains v) := by
  refine ⟨accepts_iff, fun ht => accepts_iff.mpr (ht.coarse_of_contains h),
    fun env number i p m m' q hrun ht hv => mismatch_iff hrun ht hv,
    fun env d e m m' hreturns he => ?_⟩
  rw [run_checkReturn hreturns he, ← accepts_iff]
  cases t.typeRef.accepts v <;> simp

/-- The components of this tuple are covered by its first one. -/
theorem accepts_instance_homogeneous :
    let t : Descriptor := .tuple [.string, .enum ["a"]]
    let v : Value := .array [.string "x", .string "a"]
    t.Contains v ∧ t.Homogeneous ∧ t.typeRef.accepts v = true := by
  intro t v
  have hcontains : t.Contains v := by
    refine .tuple rfl fun p hp => ?_
    rcases List.mem_cons.mp hp with rfl | hp
    · exact .string "x"
    · obtain rfl := List.mem_singleton.mp hp
      exact .enum (.inr (List.mem_singleton_self _))
  have hhomogeneous : t.Homogeneous := by
    refine .tuple (.core rfl) fun u hu w hw => ?_
    obtain rfl := List.mem_singleton.mp hu
    cases hw
    exact .string _
  exact ⟨hcontains, hhomogeneous, (accepts_instance_iff hcontains).2.1 hhomogeneous⟩

/-- Those of this one are not: its second component is held against the type of the first. -/
theorem rejects_instance : ∃ (t : Descriptor) (v : Value), t.Contains v ∧ t.typeRef.accepts v = false := by
  refine ⟨.tuple [.string, .integer none none], .array [.string "a", .integer 1], ?_, by decide⟩
  refine .tuple rfl fun p hp => ?_
  rcases List.mem_cons.mp hp with rfl | hp
  · exact .string "a"
  · obtain rfl := List.mem_singleton.mp hp
    exact .integer nofun nofun

end Descriptor
end Cascade
