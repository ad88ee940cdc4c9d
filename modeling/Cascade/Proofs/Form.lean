import Cascade.Proofs.Name
import Cascade.Proofs.Value
/-!
What agreement sees of a value. The form of a value keeps its arrays and the parameters of its types in
order and its hashes as functions of their keys, so two hashes have one form in whatever order their
entries were put in. Structural agreement tells values by their forms, and so does the language's `==`,
once every string that is not inside a type is taken up to the case of ASCII letters. Floats stand
apart: a NaN agrees with nothing, and an integer and a float can be equal without being the same.
-/
namespace Cascade

namespace Table

variable {κ α β : Type} [DecidableEq κ] {t u : Table κ α} {key : κ} {v : α}

theorem get?_eq_none_iff : get? t key = none ↔ key ∉ keys t := by
  rw [← isSome_get?_iff, Option.not_isSome_iff_eq_none]

/-- Two tables of the same size agree if all that is in the one is in the other: there is no room for
another key. -/
theorem agree_iff (f : α → β) (ht : (keys t).Nodup) (hu : (keys u).Nodup) :
    (t.length = u.length ∧ ∀ e ∈ t, ∃ w, get? u e.1 = some w ∧ f e.2 = f w) ↔
      ∀ key, (get? t key).map f = (get? u key).map f := by
  constructor
  · rintro ⟨hlen, hin⟩ key
    have hsub : keys t ⊆ keys u := fun k hk => by
      obtain ⟨e, he, rfl⟩ := List.mem_map.mp hk
      obtain ⟨w, hw, -⟩ := hin e he
      exact mem_keys_of_get? u hw
    have hkeys : (keys t).Perm (keys u) :=
      (ht.subperm hsub).perm_of_length_le (by simp [keys, hlen])
    cases hk : get? t key with
    | none =>
      have hnot : get? u key = none :=
        get?_eq_none_iff.mpr fun hm => get?_eq_none_iff.mp hk (hkeys.mem_iff.mpr hm)
      rw [hnot]
    | some v =>
      obtain ⟨w, hw, hf⟩ := hin _ (mem_of_get? hk)
      rw [hw, Option.map_some, Option.map_some, hf]
  · intro hall
    have hmem : ∀ key, key ∈ keys t ↔ key ∈ keys u := fun key => by
      rw [← isSome_get?_iff, ← isSome_get?_iff, ← Option.isSome_map (f := f), hall, Option.isSome_map]
    have hkeys : (keys t).Perm (keys u) := (List.perm_ext_iff_of_nodup ht hu).mpr fun key => hmem key
    refine ⟨by simpa [keys] using hkeys.length_eq, fun e he => ?_⟩
    have hget := hall e.1
    rw [get?_of_mem ht he, Option.map_some] at hget
    obtain ⟨w, hw, hf⟩ := Option.map_eq_some_iff.mp hget.symm
    exact ⟨w, hw, hf.symm⟩

end Table

/-- What agreement sees of a value. -/
inductive Form
  /-- A value without parts, which is seen as it is. -/
  | atom (v : Value)
  | text (s : String)
  | list (items : List Form)
  | table (entry : String → Option Form)
  | type (name : String) (params : List Form)

namespace Value

mutual
/-- The form of a value whose strings are seen as `fold` gives them; inside a type all are seen as they
are. -/
def form (fold : String → String) : Value → Form
  | string s => .text (fold s)
  | array items => .list (formItems fold items)
  | hash entries => .table (formEntries fold entries)
  | type name params => .type name (formItems id params)
  | undef => .atom undef
  | default => .atom default
  | bool b => .atom (bool b)
  | integer n => .atom (integer n)
  | float x => .atom (float x)
  | regex source => .atom (regex source)
  | resource typeName title => .atom (resource typeName title)

def formItems (fold : String → String) : List Value → List Form
  | [] => []
  | v :: vs => form fold v :: formItems fold vs

def formEntries (fold : String → String) : List (String × Value) → String → Option Form
  | [], _ => none
  | (k, v) :: es, key => if k = key then some (form fold v) else formEntries fold es key
end

mutual
/-- Whether all floats in a value are such as `floats` admits. No hash in it has a key twice. -/
def isKeyed (floats : Float → Bool) : Value → Bool
  | float x => floats x
  | array items => isKeyedItems floats items
  | hash entries => decide (Table.keys entries).Nodup && isKeyedEntries floats entries
  | type _ params => isKeyedItems floats params
  | undef | default | bool _ | integer _ | string _ | regex _ | resource .. => true

def isKeyedItems (floats : Float → Bool) : List Value → Bool
  | [] => true
  | v :: vs => isKeyed floats v && isKeyedItems floats vs

def isKeyedEntries (floats : Float → Bool) : List (String × Value) → Bool
  | [] => true
  | (_, v) :: es => isKeyed floats v && isKeyedEntries floats es
end

/-- Whether there is no float in a value, at any depth, and no hash in it has a key twice. -/
def isFloatFree (v : Value) : Bool := v.isKeyed fun _ => false

variable {floats : Float → Bool} {fold : String → String}

theorem isKeyedItems_iff {vs : List Value} :
    isKeyedItems floats vs = true ↔ ∀ v ∈ vs, v.isKeyed floats = true := by
  induction vs with
  | nil => simp [isKeyedItems]
  | cons v vs ih => simp [isKeyedItems, ih]

theorem isKeyedEntries_iff {es : List (String × Value)} :
    isKeyedEntries floats es = true ↔ ∀ e ∈ es, e.2.isKeyed floats = true := by
  induction es with
  | nil => simp [isKeyedEntries]
  | cons e es ih =>
    obtain ⟨k, v⟩ := e
    simp [isKeyedEntries, ih]

theorem isKeyed_hash_iff {es : List (String × Value)} : (hash es).isKeyed floats = true ↔
    (Table.keys es).Nodup ∧ ∀ e ∈ es, e.2.isKeyed floats = true := by
  rw [isKeyed, Bool.and_eq_true, decide_eq_true_eq, isKeyedEntries_iff]

theorem formItems_eq (vs : List Value) : formItems fold vs = vs.map (form fold) := by
  induction vs with
  | nil => rfl
  | cons v vs ih => rw [formItems, ih, List.map_cons]

theorem formEntries_eq (es : List (String × Value)) (key : String) :
    formEntries fold es key = (Table.get? es key).map (form fold) := by
  induction es with
  | nil => rfl
  | cons e es ih =>
    obtain ⟨k, v⟩ := e
    rw [formEntries, ih, Table.get?_cons]
    split <;> rfl

/-- Two hashes of which each entry of the one is in the other, by its form. -/
theorem form_hash_iff {t u : List (String × Value)} (ht : (Table.keys t).Nodup)
    (hu : (Table.keys u).Nodup) : form fold (hash t) = form fold (hash u) ↔
      t.length = u.length ∧
        ∀ e ∈ t, ∃ w, Table.get? u e.1 = some w ∧ form fold e.2 = form fold w := by
  rw [Table.agree_iff _ ht hu, form, form, Form.table.injEq, funext_iff]
  simp only [formEntries_eq]

theorem form_array_iff {a b : List Value} : form fold (array a) = form fold (array b) ↔
    List.Forall₂ (fun v w => form fold v = form fold w) a b := by
  rw [form, form, Form.list.injEq, formItems_eq, formItems_eq, ← List.forall₂_eq_eq_eq,
    List.forall₂_map_left_iff, List.forall₂_map_right_iff]

theorem form_type_iff {m n : String} {p q : List Value} :
    form fold (type m p) = form fold (type n q) ↔
      m = n ∧ List.Forall₂ (fun v w => form id v = form id w) p q := by
  rw [← form_array_iff]
  simp [form]

theorem sameItems_iff {a b : List Value} :
    sameItems a b = true ↔ List.Forall₂ (fun v w => same v w = true) a b := by
  induction a generalizing b with
  | nil => cases b <;> simp [sameItems]
  | cons v a ih => cases b <;> simp [sameItems, ih]

theorem equalItems_iff {a b : List Value} :
    equalItems a b = true ↔ List.Forall₂ (fun v w => equal v w = true) a b := by
  induction a generalizing b with
  | nil => cases b <;> simp [equalItems]
  | cons v a ih => cases b <;> simp [equalItems, ih]

theorem sameEntries_iff {es t : List (String × Value)} : sameEntries es t = true ↔
    ∀ e ∈ es, ∃ w, Table.get? t e.1 = some w ∧ same e.2 w = true := by
  induction es with
  | nil => simp [sameEntries]
  | cons e es ih =>
    obtain ⟨k, v⟩ := e
    rw [sameEntries, Bool.and_eq_true, ih, List.forall_mem_cons]
    cases Table.get? t k <;> simp

theorem equalEntries_iff {es t : List (String × Value)} : equalEntries es t = true ↔
    ∀ e ∈ es, ∃ w, Table.get? t e.1 = some w ∧ equal e.2 w = true := by
  induction es with
  | nil => simp [equalEntries]
  | cons e es ih =>
    obtain ⟨k, v⟩ := e
    rw [equalEntries, Bool.and_eq_true, ih, List.forall_mem_cons]
    cases Table.get? t k <;> simp

/-- The values that a value is made of. -/
def parts : Value → List Value
  | array items => items
  | hash entries => entries.map (·.2)
  | type _ params => params
  | _ => []

theorem sizeOf_lt_of_mem_parts {p v : Value} (h : p ∈ v.parts) : sizeOf p < sizeOf v := by
  cases v with
  | array items =>
    have hlt : sizeOf p < sizeOf items := List.sizeOf_lt_of_mem h
    rw [array.sizeOf_spec]
    omega
  | hash entries =>
    obtain ⟨⟨k, v⟩, he, rfl⟩ := List.mem_map.mp h
    have hlt := List.sizeOf_lt_of_mem he
    rw [Prod.mk.sizeOf_spec] at hlt
    simp only [hash.sizeOf_spec]
    omega
  | type _ params =>
    have hlt : sizeOf p < sizeOf params := List.sizeOf_lt_of_mem h
    rw [type.sizeOf_spec]
    omega
  | _ => exact absurd h List.not_mem_nil

/-- What holds of a value if it holds of its parts holds of all values. -/
@[elab_as_elim]
theorem parts_induction {P : Value → Prop} (step : ∀ v, (∀ p ∈ v.parts, P p) → P v) (v : Value) :
    P v :=
  step v fun p _ => parts_induction step p
termination_by sizeOf v
decreasing_by exact sizeOf_lt_of_mem_parts ‹_›

theorem isKeyed_of_mem_parts {p v : Value} (h : v.isKeyed floats = true) (hp : p ∈ v.parts) :
    p.isKeyed floats = true := by
  cases v with
  | array items => exact isKeyedItems_iff.mp h p hp
  | hash entries =>
    obtain ⟨e, he, rfl⟩ := List.mem_map.mp hp
    exact (isKeyed_hash_iff.mp h).2 e he
  | type _ params => exact isKeyedItems_iff.mp h p hp
  | _ => exact absurd hp List.not_mem_nil

theorem mem_parts_hash {es : List (String × Value)} {e : String × Value} (h : e ∈ es) :
    e.2 ∈ (hash es).parts := List.mem_map_of_mem h

theorem forall₂_of_mem {R S : Value → Value → Prop} {a b : List Value} (h : List.Forall₂ R a b)
    (himp : ∀ v ∈ a, ∀ w ∈ b, R v w → S v w) : List.Forall₂ S a b := by
  induction h with
  | nil => exact .nil
  | cons hvw _ ih =>
    exact .cons (himp _ List.mem_cons_self _ List.mem_cons_self hvw)
      (ih fun v hv w hw => himp v (List.mem_cons_of_mem _ hv) w (List.mem_cons_of_mem _ hw))

/-- Whether a value is compared as a whole. -/
def isLeaf : Value → Bool
  | array _ | hash _ | type .. => false
  | _ => true

/-- Two values are of one kind, and agree as far as their parts do: `inside` tells the parts of arrays
and hashes, `inType` the parameters of types, and `leaf` all other values. -/
def Alike (leaf inType inside : Value → Value → Prop) : Value → Value → Prop
  | array a, array b => List.Forall₂ inside a b
  | hash t, hash u =>
    t.length = u.length ∧ ∀ e ∈ t, ∃ w, Table.get? u e.1 = some w ∧ inside e.2 w
  | type m p, type n q => m = n ∧ List.Forall₂ inType p q
  | v, w => v.isLeaf = true ∧ w.isLeaf = true ∧ leaf v w

theorem Alike.imp {leaf leaf' inType inType' inside inside' : Value → Value → Prop} {v w : Value}
    (h : Alike leaf inType inside v w)
    (hinside : ∀ p ∈ v.parts, ∀ q ∈ w.parts, inside p q → inside' p q)
    (htype : ∀ p ∈ v.parts, ∀ q ∈ w.parts, inType p q → inType' p q)
    (hleaf : v.isLeaf = true → w.isLeaf = true → leaf v w → leaf' v w) :
    Alike leaf' inType' inside' v w := by
  unfold Alike at h ⊢
  split at h
  next => exact forall₂_of_mem h hinside
  next =>
    refine ⟨h.1, fun e he => ?_⟩
    obtain ⟨w, hget, hw⟩ := h.2 e he
    exact ⟨w, hget, hinside _ (mem_parts_hash he) _ (mem_parts_hash (Table.mem_of_get? hget)) hw⟩
  next => exact ⟨h.1, forall₂_of_mem h.2 htype⟩
  next => exact ⟨h.1, h.2.1, hleaf h.1 h.2.1 h.2.2⟩

theorem form_eq_iff_alike {v w : Value} (hv : v.isKeyed floats = true)
    (hw : w.isKeyed floats = true) : v.form fold = w.form fold ↔
      Alike (fun v w => v.form fold = w.form fold) (fun v w => v.form id = w.form id)
        (fun v w => v.form fold = w.form fold) v w := by
  cases v <;> cases w
  case array.array => exact form_array_iff
  case hash.hash => exact form_hash_iff (isKeyed_hash_iff.mp hv).1 (isKeyed_hash_iff.mp hw).1
  case type.type => exact form_type_iff
  all_goals simp [form, Alike, isLeaf]

theorem same_iff_alike {v w : Value} : v.same w = true ↔
    Alike (fun v w => v.same w = true) (fun v w => v.same w = true) (fun v w => v.same w = true)
      v w := by
  cases v <;> cases w
  case array.array => rw [same, sameItems_iff, Alike]
  case hash.hash => rw [same, Bool.and_eq_true, beq_iff_eq, sameEntries_iff, Alike]
  case type.type => rw [same, Bool.and_eq_true, beq_iff_eq, sameItems_iff, Alike]
  all_goals simp [same, Alike, isLeaf]

theorem equal_iff_alike {v w : Value} : v.equal w = true ↔
    Alike (fun v w => v.equal w = true) (fun v w => v.same w = true) (fun v w => v.equal w = true)
      v w := by
  cases v <;> cases w
  case array.array => rw [equal, equalItems_iff, Alike]
  case hash.hash => rw [equal, Bool.and_eq_true, beq_iff_eq, equalEntries_iff, Alike]
  case type.type => simp [equal, same, sameItems_iff, Alike]
  all_goals simp [equal, same, Alike, isLeaf]

/-- Values of one form are the same, if their floats agree with themselves. -/
theorem same_of_form_eq (hfloats : ∀ x, floats x = true → (x == x) = true) (v w : Value)
    (hv : v.isKeyed floats = true) (hw : w.isKeyed floats = true) (h : v.form id = w.form id) :
    v.same w = true := by
  induction v using parts_induction generalizing w with
  | step v ih =>
    have hparts : ∀ p ∈ v.parts, ∀ q ∈ w.parts, p.form id = q.form id → p.same q = true :=
      fun p hp q hq => ih p hp q (isKeyed_of_mem_parts hv hp) (isKeyed_of_mem_parts hw hq)
    refine same_iff_alike.mpr (((form_eq_iff_alike hv hw).mp h).imp hparts hparts ?_)
    intro hleaf _ hform
    cases v with
    | float x =>
      obtain rfl : float x = w := by cases w <;> simp_all [form]
      exact hfloats x hv
    | _ => cases w <;> simp_all [form, same, isLeaf]

/-- Values without floats that are the same have one form. -/
theorem form_eq_of_same (v w : Value) (hv : v.isFloatFree = true) (hw : w.isFloatFree = true)
    (h : v.same w = true) : v.form id = w.form id := by
  induction v using parts_induction generalizing w with
  | step v ih =>
    have hparts : ∀ p ∈ v.parts, ∀ q ∈ w.parts, p.same q = true → p.form id = q.form id :=
      fun p hp q hq => ih p hp q (isKeyed_of_mem_parts hv hp) (isKeyed_of_mem_parts hw hq)
    refine (form_eq_iff_alike hv hw).mpr ((same_iff_alike.mp h).imp hparts hparts ?_)
    intro hleaf _ hsame
    cases v <;> cases w <;> simp_all [form, same, isLeaf, isFloatFree, isKeyed]

theorem same_iff_form {v w : Value} (hv : v.isFloatFree = true) (hw : w.isFloatFree = true) :
    v.same w = true ↔ v.form id = w.form id :=
  ⟨form_eq_of_same v w hv hw, same_of_form_eq (fun _ h => absurd h (by simp)) v w hv hw⟩

theorem equal_iff_form_of_isLeaf {v w : Value} (hv : v.isFloatFree = true)
    (hw : w.isFloatFree = true) (hleaf : v.isLeaf = true) :
    v.equal w = true ↔ v.form Name.foldCase = w.form Name.foldCase := by
  cases v <;> cases w <;>
    simp_all [equal, same, form, isLeaf, isFloatFree, isKeyed, Name.sameFold]

/-- Values without floats are equal if they have one form when strings are taken up to the case of
ASCII letters. -/
theorem equal_iff_form (v w : Value) (hv : v.isFloatFree = true) (hw : w.isFloatFree = true) :
    v.equal w = true ↔ v.form Name.foldCase = w.form Name.foldCase := by
  induction v using parts_induction generalizing w with
  | step v ih =>
    have hparts : ∀ p ∈ v.parts, ∀ q ∈ w.parts,
        (p.equal q = true ↔ p.form Name.foldCase = q.form Name.foldCase) :=
      fun p hp q hq => ih p hp q (isKeyed_of_mem_parts hv hp) (isKeyed_of_mem_parts hw hq)
    have htype : ∀ p ∈ v.parts, ∀ q ∈ w.parts, (p.same q = true ↔ p.form id = q.form id) :=
      fun p hp q hq => same_iff_form (isKeyed_of_mem_parts hv hp) (isKeyed_of_mem_parts hw hq)
    rw [equal_iff_alike, form_eq_iff_alike hv hw]
    constructor
    · exact fun h => h.imp (fun p hp q hq => (hparts p hp q hq).mp)
        (fun p hp q hq => (htype p hp q hq).mp)
        fun hleaf _ => (equal_iff_form_of_isLeaf hv hw hleaf).mp
    · exact fun h => h.imp (fun p hp q hq => (hparts p hp q hq).mpr)
        (fun p hp q hq => (htype p hp q hq).mpr)
        fun hleaf _ => (equal_iff_form_of_isLeaf hv hw hleaf).mpr

end Value
end Cascade
