import Cascade.Proofs.Form
import Mathlib.Data.String.Basic
/-!
Values as JSON and as YAML, there and back. A value made of data is the same after a trip through
either; YAML keeps even the order of its keys, and JSON puts them in their own. A JSON document whose
integers fit a signed word is the same after a trip through the values.
-/
namespace Cascade

/-- A finite float agrees with itself. -/
theorem float_beq_self {x : Float} (h : x.isFinite = true) : (x == x) = true := by
  change x.toModel.unpack.beq x.toModel.unpack = true
  change x.toModel.unpack.isFinite = true at h
  unfold Float.Model.UnpackedFloat.beq Float.Model.UnpackedFloat.compare
  cases hx : x.toModel.unpack with
  | notANumber => simp [hx, Float.Model.UnpackedFloat.isFinite] at h
  | infinity s => simp [hx, Float.Model.UnpackedFloat.isFinite] at h
  | zero s => rfl
  | finite s m e hm => cases s <;> simp

namespace Json

variable {key k : String} {v : Json} {ms us : List (String × Json)}

theorem get?_insertMember (key : String) (v : Json) (ms : List (String × Json)) (k : String) :
    Table.get? (insertMember key v ms) k = if key = k then some v else Table.get? ms k := by
  induction ms with
  | nil => rfl
  | cons m ms ih =>
    obtain ⟨l, w⟩ := m
    rw [insertMember]
    split
    next hl =>
      subst hl
      by_cases hk : l = k <;> simp [hk]
    next hl =>
      split
      · rw [Table.get?_cons]
      · rw [Table.get?_cons, ih, Table.get?_cons]
        by_cases hk : l = k
        · subst hk
          rw [if_pos rfl, if_neg (Ne.symm hl), if_pos rfl]
        · rw [if_neg hk, if_neg hk]

theorem mem_keys_insertMember : k ∈ Table.keys (insertMember key v ms) ↔
    k = key ∨ k ∈ Table.keys ms := by
  rw [← Table.isSome_get?_iff, get?_insertMember, ← Table.isSome_get?_iff]
  by_cases h : key = k
  · simp [h]
  · simp [h, Ne.symm h]

/-- Members in the order of their keys, each of which occurs once. -/
def Sorted (ms : List (String × Json)) : Prop := (Table.keys ms).Pairwise (· < ·)

theorem Sorted.insertMember (h : Sorted ms) (key : String) (v : Json) :
    Sorted (insertMember key v ms) := by
  induction ms with
  | nil => exact List.pairwise_singleton _ _
  | cons m ms ih =>
    obtain ⟨l, w⟩ := m
    obtain ⟨hl, hms⟩ := List.pairwise_cons.mp h
    rw [Json.insertMember]
    split
    next heq =>
      subst heq
      exact List.pairwise_cons.mpr ⟨hl, hms⟩
    next hne =>
      split
      next hlt =>
        exact List.pairwise_cons.mpr ⟨fun k hk => by
          rcases List.mem_cons.mp hk with rfl | hk
          · exact hlt
          · exact hlt.trans (hl k hk), h⟩
      next hnlt =>
        refine List.pairwise_cons.mpr ⟨fun k hk => ?_, ih hms⟩
        rcases mem_keys_insertMember.mp hk with rfl | hk
        · exact lt_of_le_of_ne (not_lt.mp hnlt) hne
        · exact hl k hk

theorem sorted_foldl_insertMember (h : Sorted us) (ms : List (String × Json)) :
    Sorted (ms.foldl (fun us m => insertMember m.1 m.2 us) us) := by
  induction ms generalizing us with
  | nil => exact h
  | cons m ms ih => exact ih (h.insertMember m.1 m.2)

theorem get?_foldl_insertMember (us ms : List (String × Json)) (k : String) :
    Table.get? (ms.foldl (fun us m => insertMember m.1 m.2 us) us) k =
      (Table.get? ms.reverse k).or (Table.get? us k) := by
  induction ms generalizing us with
  | nil => rfl
  | cons m ms ih =>
    rw [List.foldl_cons, ih, get?_insertMember, List.reverse_cons, Table.get?_append, Table.get?_cons,
      Option.or_assoc]
    congr 1
    split <;> rfl

/-- A member that goes behind all others is put there. -/
theorem insertMember_of_lt (h : ∀ k ∈ Table.keys us, k < key) (v : Json) :
    insertMember key v us = us ++ [(key, v)] := by
  induction us with
  | nil => rfl
  | cons m us ih =>
    obtain ⟨k, w⟩ := m
    have hk : k < key := h k List.mem_cons_self
    rw [insertMember, if_neg hk.ne, if_neg hk.asymm, ih fun l hl => h l (List.mem_cons_of_mem _ hl),
      List.cons_append]

theorem foldl_insertMember_of_sorted (h : Sorted (us ++ ms)) :
    ms.foldl (fun us m => insertMember m.1 m.2 us) us = us ++ ms := by
  induction ms generalizing us with
  | nil => exact (List.append_nil us).symm
  | cons m ms ih =>
    have hlt : ∀ k ∈ Table.keys us, k < m.1 := by
      rw [Sorted, Table.keys, List.map_append] at h
      exact fun k hk => (List.pairwise_append.mp h).2.2 k hk m.1 List.mem_cons_self
    rw [List.foldl_cons, insertMember_of_lt hlt, ih (by simpa using h), List.append_assoc]
    rfl

/-- The object of members in order has those members. -/
theorem ofMembers_of_sorted (h : Sorted ms) : ofMembers ms = object ms := by
  have hempty : Sorted ([] ++ ms) := h
  rw [ofMembers, foldl_insertMember_of_sorted hempty, List.nil_append]

theorem Sorted.nodup (h : Sorted ms) : (Table.keys ms).Nodup := h.imp fun hlt => hlt.ne

instance (ms : List (String × Json)) : Decidable (Sorted ms) :=
  inferInstanceAs (Decidable (List.Pairwise _ _))

/-- Whether a number is an integer of a signed word or a finite float. -/
def isSigned : JsonNumber → Bool
  | .integer n => (Value.int64? n).isSome
  | .float x => x.isFinite

mutual
/-- Whether this is a document whose integers all fit a signed word. Every object of a document has each
of its keys once, in their order, and every float is finite. -/
def isDocument : Json → Bool
  | null | bool _ | string _ => true
  | number n => isSigned n
  | array items => isDocumentItems items
  | object members => decide (Sorted members) && isDocumentMembers members

def isDocumentItems : List Json → Bool
  | [] => true
  | j :: js => isDocument j && isDocumentItems js

def isDocumentMembers : List (String × Json) → Bool
  | [] => true
  | (_, j) :: ms => isDocument j && isDocumentMembers ms
end

theorem isDocumentItems_iff {js : List Json} :
    isDocumentItems js = true ↔ ∀ j ∈ js, j.isDocument = true := by
  induction js with
  | nil => simp [isDocumentItems]
  | cons j js ih => simp [isDocumentItems, ih]

theorem isDocumentMembers_iff : isDocumentMembers ms = true ↔ ∀ m ∈ ms, m.2.isDocument = true := by
  induction ms with
  | nil => simp [isDocumentMembers]
  | cons m ms ih =>
    obtain ⟨k, j⟩ := m
    simp [isDocumentMembers, ih]

theorem isDocument_object_iff : (object ms).isDocument = true ↔
    Sorted ms ∧ ∀ m ∈ ms, m.2.isDocument = true := by
  rw [isDocument, Bool.and_eq_true, decide_eq_true_eq, isDocumentMembers_iff]

end Json

namespace Value

theorem toInt_of_int64? {n : Int} {i : Int64} (h : int64? n = some i) : i.toInt = n := by
  rw [int64?] at h
  split at h
  next hn =>
    obtain rfl := Option.some.inj h
    exact Int64.toInt_ofInt_of_le hn.1 hn.2
  next => exact absurd h (by simp)

mutual
/-- A document is the same after it has been a value. -/
theorem toJson_ofJson : ∀ j : Json, j.isDocument = true → (ofJson j).toJson = j
  | .null, _ | .bool _, _ | .string _, _ => rfl
  | .number (.integer n), h => by
    obtain ⟨i, hi⟩ := Option.isSome_iff_exists.mp h
    rw [ofJson, ofJsonNumber, hi]
    exact congrArg Json.ofInt (toInt_of_int64? hi)
  | .number (.float x), h => by
    have hx : x.isFinite = true := h
    rw [ofJson, ofJsonNumber, toJson, if_pos hx]
  | .array items, h => by
    rw [ofJson, toJson, toJsonItems_ofJsonItems items h]
  | .object members, h => by
    rw [Json.isDocument, Bool.and_eq_true, decide_eq_true_eq] at h
    rw [ofJson, toJson, toJsonMembers_ofJsonMembers members h.2, Json.ofMembers_of_sorted h.1]

theorem toJsonItems_ofJsonItems : ∀ js : List Json, Json.isDocumentItems js = true →
    toJsonItems (ofJsonItems js) = js
  | [], _ => rfl
  | j :: js, h => by
    rw [Json.isDocumentItems, Bool.and_eq_true] at h
    rw [ofJsonItems, toJsonItems, toJson_ofJson j h.1, toJsonItems_ofJsonItems js h.2]

theorem toJsonMembers_ofJsonMembers : ∀ ms : List (String × Json),
    Json.isDocumentMembers ms = true → toJsonMembers (ofJsonMembers ms) = ms
  | [], _ => rfl
  | (k, j) :: ms, h => by
    rw [Json.isDocumentMembers, Bool.and_eq_true] at h
    rw [ofJsonMembers, toJsonMembers, toJson_ofJson j h.1, toJsonMembers_ofJsonMembers ms h.2]
end

theorem ofJsonItems_eq (js : List Json) : ofJsonItems js = js.map ofJson := by
  induction js with
  | nil => rfl
  | cons j js ih => rw [ofJsonItems, ih, List.map_cons]

theorem toJsonItems_eq (vs : List Value) : toJsonItems vs = vs.map toJson := by
  induction vs with
  | nil => rfl
  | cons v vs ih => rw [toJsonItems, ih, List.map_cons]

theorem ofJsonMembers_eq (ms : List (String × Json)) :
    ofJsonMembers ms = Table.mapValues ofJson ms := by
  induction ms with
  | nil => rfl
  | cons m ms ih =>
    obtain ⟨k, j⟩ := m
    rw [ofJsonMembers, ih]
    rfl

theorem toJsonMembers_eq (es : List (String × Value)) :
    toJsonMembers es = Table.mapValues toJson es := by
  induction es with
  | nil => rfl
  | cons e es ih =>
    obtain ⟨k, v⟩ := e
    rw [toJsonMembers, ih]
    rfl

theorem isData_of_mem_parts {p v : Value} (h : v.isData = true) (hp : p ∈ v.parts) :
    p.isData = true := by
  cases v with
  | array items => exact isDataItems_iff.mp h p hp
  | hash entries =>
    rw [isData, Bool.and_eq_true] at h
    obtain ⟨e, he, rfl⟩ := List.mem_map.mp hp
    exact isDataEntries_iff.mp h.2 e he
  | type name params => exact absurd h (by simp [isData])
  | _ => exact absurd hp List.not_mem_nil

/-- The members of the object that a hash becomes. -/
theorem get?_members {es : List (String × Value)} (h : (Table.keys es).Nodup) (key : String) :
    Table.get? ((toJsonMembers es).foldl (fun us m => Json.insertMember m.1 m.2 us) []) key =
      (Table.get? es key).map toJson := by
  have hkeys : (Table.keys (Table.mapValues toJson es)).Nodup := by rwa [Table.keys_mapValues]
  rw [Json.get?_foldl_insertMember, toJsonMembers_eq, Table.get?_reverse hkeys, Table.get?_nil,
    Option.or_none, Table.get?_mapValues]

/-- A value of data keeps its form on the way through JSON. -/
theorem form_ofJson_toJson (v : Value) (hd : v.isData = true)
    (hf : v.isKeyed Float.isFinite = true) : (ofJson v.toJson).form id = v.form id := by
  induction v using parts_induction with
  | step v ih =>
    have hparts : ∀ p ∈ v.parts, (ofJson p.toJson).form id = p.form id := fun p hp =>
      ih p hp (isData_of_mem_parts hd hp) (isKeyed_of_mem_parts hf hp)
    cases v with
    | undef | bool _ | string _ => rfl
    | integer n =>
      have hn : ofJson (integer n).toJson = ofJsonNumber (.integer n.toInt) := rfl
      rw [hn, ofJsonNumber, int64?_toInt]
    | float x =>
      have hx : x.isFinite = true := hf
      rw [toJson, if_pos hx]
      rfl
    | array items =>
      rw [toJson, ofJson, form, form, formItems_eq, formItems_eq, ofJsonItems_eq, toJsonItems_eq,
        List.map_map, List.map_map]
      exact congrArg Form.list (List.map_congr_left hparts)
    | hash entries =>
      rw [isData, Bool.and_eq_true, decide_eq_true_eq] at hd
      rw [toJson, Json.ofMembers, ofJson, form, form, Form.table.injEq]
      funext key
      rw [formEntries_eq, formEntries_eq, ofJsonMembers_eq, Table.get?_mapValues, get?_members hd.1]
      cases hget : Table.get? entries key with
      | none => rfl
      | some w => exact congrArg some (hparts w (mem_parts_hash (Table.mem_of_get? hget)))
    | default | type _ _ | regex _ | resource _ _ => exact absurd hd (by simp [isData])

theorem isDocument_toJson (v : Value) (hd : v.isData = true)
    (hf : v.isKeyed Float.isFinite = true) : v.toJson.isDocument = true := by
  induction v using parts_induction with
  | step v ih =>
    have hparts : ∀ p ∈ v.parts, p.toJson.isDocument = true := fun p hp =>
      ih p hp (isData_of_mem_parts hd hp) (isKeyed_of_mem_parts hf hp)
    cases v with
    | undef | bool _ | string _ => rfl
    | integer n =>
      change (int64? n.toInt).isSome = true
      rw [int64?_toInt]
      rfl
    | float x =>
      have hx : x.isFinite = true := hf
      rw [toJson, if_pos hx]
      exact hx
    | array items =>
      rw [toJson, Json.isDocument, Json.isDocumentItems_iff, toJsonItems_eq]
      exact List.forall_mem_map.mpr hparts
    | hash entries =>
      rw [isData, Bool.and_eq_true, decide_eq_true_eq] at hd
      have hempty : Json.Sorted [] := List.Pairwise.nil
      have hsorted := Json.sorted_foldl_insertMember hempty (toJsonMembers entries)
      rw [toJson, Json.ofMembers, Json.isDocument_object_iff]
      refine ⟨hsorted, fun m hm => ?_⟩
      have hget := Table.get?_of_mem hsorted.nodup hm
      rw [get?_members hd.1] at hget
      obtain ⟨w, hw, hm'⟩ := Option.map_eq_some_iff.mp hget
      rw [← hm']
      exact hparts w (mem_parts_hash (Table.mem_of_get? hw))
    | default | type _ _ | regex _ | resource _ _ => exact absurd hd (by simp [isData])

mutual
theorem isKeyed_ofJson : ∀ j : Json, j.isDocument = true → (ofJson j).isKeyed Float.isFinite = true
  | .null, _ | .bool _, _ | .string _, _ => rfl
  | .number (.integer n), h => by
    obtain ⟨i, hi⟩ := Option.isSome_iff_exists.mp h
    rw [ofJson, ofJsonNumber, hi]
    rfl
  | .number (.float x), h => h
  | .array items, h => by
    rw [ofJson, isKeyed]
    exact isKeyedItems_ofJsonItems items h
  | .object members, h => by
    rw [Json.isDocument, Bool.and_eq_true, decide_eq_true_eq] at h
    have hkeys : Table.keys (ofJsonMembers members) = Table.keys members := by
      rw [ofJsonMembers_eq, Table.keys_mapValues]
    rw [ofJson, isKeyed, hkeys, isKeyedEntries_ofJsonMembers members h.2, Bool.and_true,
      decide_eq_true_eq]
    exact h.1.nodup

theorem isKeyedItems_ofJsonItems : ∀ js : List Json, Json.isDocumentItems js = true →
    isKeyedItems Float.isFinite (ofJsonItems js) = true
  | [], _ => rfl
  | j :: js, h => by
    rw [Json.isDocumentItems, Bool.and_eq_true] at h
    rw [ofJsonItems, isKeyedItems, isKeyed_ofJson j h.1, isKeyedItems_ofJsonItems js h.2]
    rfl

theorem isKeyedEntries_ofJsonMembers : ∀ ms : List (String × Json),
    Json.isDocumentMembers ms = true → isKeyedEntries Float.isFinite (ofJsonMembers ms) = true
  | [], _ => rfl
  | (k, j) :: ms, h => by
    rw [Json.isDocumentMembers, Bool.and_eq_true] at h
    rw [ofJsonMembers, isKeyedEntries, isKeyed_ofJson j h.1, isKeyedEntries_ofJsonMembers ms h.2]
    rfl
end

/-- Values of data whose floats are finite come back from JSON the same, in the sense of `same` and with
every float as it was; from YAML they come back as they are, keys in order. Documents whose integers fit
a signed word come back from the values as they are. -/
theorem conversions_lossless :
    (∀ v : Value, v.isData = true → v.isKeyed Float.isFinite = true →
      v.toJson.isDocument = true ∧ (ofJson v.toJson).same v = true ∧
        (ofJson v.toJson).form id = v.form id ∧ ofYaml v.toYaml = v) ∧
    ∀ j : Json, j.isDocument = true → (ofJson j).toJson = j := by
  refine ⟨fun v hd hf => ?_, toJson_ofJson⟩
  have hdoc := isDocument_toJson v hd hf
  have hform := form_ofJson_toJson v hd hf
  exact ⟨hdoc, same_of_form_eq (fun _ => float_beq_self) _ v (isKeyed_ofJson _ hdoc) hf hform, hform,
    ofYaml_toYaml v hd⟩

/-- Keys out of order and keys that look like numbers, a float that is whole, and empty collections. -/
theorem conversions_lossless_nested :
    let v := hash [("b", array [float 1.0, integer (-3), hash []]), ("10", undef), ("9", array [])]
    let j := Json.object [("10", .number (.float 1.0)), ("9", .array [.object [], .ofInt (-3)])]
    v.isData = true ∧ v.isKeyed Float.isFinite = true ∧ (ofJson v.toJson).same v = true ∧
      ofYaml v.toYaml = v ∧ j.isDocument = true ∧ (ofJson j).toJson = j := by
  intro v j
  have hd : v.isData = true := by decide +kernel
  have hf : v.isKeyed Float.isFinite = true := by decide +kernel
  have hj : j.isDocument = true := by decide +kernel
  obtain ⟨hvalues, hdocuments⟩ := conversions_lossless
  obtain ⟨-, hsame, -, hyaml⟩ := hvalues v hd hf
  exact ⟨hd, hf, hsame, hyaml, hj, hdocuments j hj⟩

end Value
end Cascade
