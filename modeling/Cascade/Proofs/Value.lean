import Cascade.Value.Yaml
import Mathlib.Data.List.Nodup
/-!
Values that YAML keeps as they are: all that a data file can hold, in which no hash has a key twice.
-/
namespace Cascade

namespace Table

variable {κ α : Type} [DecidableEq κ] {t : Table κ α} {key k : κ} {v : α} {e : κ × α}

theorem set_of_notMem (h : key ∉ keys t) (v : α) : set t key v = t ++ [(key, v)] := by
  induction t with
  | nil => rfl
  | cons e t ih =>
    simp only [keys, List.map_cons, List.mem_cons, not_or] at h
    rw [set, if_neg (Ne.symm h.1), ih h.2, List.cons_append]

theorem keys_set (t : Table κ α) (key : κ) (v : α) :
    keys (set t key v) = if key ∈ keys t then keys t else keys t ++ [key] := by
  induction t with
  | nil => rfl
  | cons e t ih =>
    obtain ⟨k, w⟩ := e
    by_cases hk : k = key
    · simp [set, hk, keys]
    · simp only [keys] at ih
      simp only [set, hk, ↓reduceIte, keys, List.map_cons, ih, List.mem_cons, Ne.symm hk, false_or]
      by_cases hm : key ∈ t.map (·.1)
      · simp only [hm, ↓reduceIte]
      · simp only [hm, ↓reduceIte, List.cons_append]

theorem nodup_keys_set (h : (keys t).Nodup) (key : κ) (v : α) : (keys (set t key v)).Nodup := by
  rw [keys_set]
  split
  · exact h
  next hn => exact List.nodup_append.mpr ⟨h, List.nodup_singleton key, fun a ha b hb hab =>
    hn (List.mem_singleton.mp hb ▸ hab ▸ ha)⟩

theorem mem_of_mem_set (h : e ∈ set t key v) : e = (key, v) ∨ e ∈ t := by
  induction t with
  | nil => exact .inl (List.mem_singleton.mp h)
  | cons d t ih =>
    obtain ⟨k, w⟩ := d
    rw [set] at h
    split at h
    · exact (List.mem_cons.mp h).imp_right (List.mem_cons_of_mem _)
    · rcases List.mem_cons.mp h with rfl | h
      · exact .inr List.mem_cons_self
      · exact (ih h).imp_right (List.mem_cons_of_mem _)

theorem erase_eq_filter (t : Table κ α) (key : κ) : erase t key = t.filter (·.1 ≠ key) := by
  induction t with
  | nil => rfl
  | cons e t ih =>
    obtain ⟨k, w⟩ := e
    by_cases hk : k = key <;> simp [erase, hk, ih]

theorem nodup_keys_erase (h : (keys t).Nodup) (key : κ) : (keys (erase t key)).Nodup := by
  rw [erase_eq_filter]
  exact h.sublist (List.filter_sublist.map _)

theorem mem_of_mem_erase (h : e ∈ erase t key) : e ∈ t := by
  rw [erase_eq_filter] at h
  exact List.mem_of_mem_filter h

/-- A key that is not there is not erased. -/
theorem erase_eq_self (h : get? t key = none) : erase t key = t := by
  induction t with
  | nil => rfl
  | cons e t ih =>
    obtain ⟨k, w⟩ := e
    rw [get?_cons] at h
    split at h
    · exact absurd h (by simp)
    next hk => rw [erase, if_neg hk, ih h]

theorem nodup_keys_merge {u : Table κ α} (h : (keys t).Nodup) : (keys (merge t u)).Nodup := by
  induction u generalizing t with
  | nil => exact h
  | cons e u ih => exact ih (nodup_keys_set h e.1 e.2)

theorem mem_of_mem_merge {u : Table κ α} (h : e ∈ merge t u) : e ∈ t ∨ e ∈ u := by
  induction u generalizing t with
  | nil => exact .inl h
  | cons d u ih =>
    rcases ih h with h | h
    · rcases mem_of_mem_set h with rfl | h
      · exact .inr List.mem_cons_self
      · exact .inl h
    · exact .inr (List.mem_cons_of_mem d h)

theorem merge_eq_append {u : Table κ α} (h : (keys (t ++ u)).Nodup) : merge t u = t ++ u := by
  induction u generalizing t with
  | nil => exact (List.append_nil t).symm
  | cons e u ih =>
    have hsplit : t ++ e :: u = t ++ [e] ++ u := by simp
    have hnew : e.1 ∉ keys t := by
      intro hm
      rw [keys, List.map_append, List.map_cons] at h
      exact (List.nodup_append.mp h).2.2 _ hm _ List.mem_cons_self rfl
    rw [hsplit] at h ⊢
    rw [← ih h, ← set_of_notMem hnew e.2]
    rfl

/-- What is merged in stands over what was there, and the last of it that has a key counts. -/
theorem get?_merge (t u : Table κ α) (key : κ) :
    get? (merge t u) key = (get? u.reverse key).or (get? t key) := by
  induction u generalizing t with
  | nil => simp [merge]
  | cons e u ih =>
    have hstep : merge t (e :: u) = merge (set t e.1 e.2) u := rfl
    rw [hstep, ih, List.reverse_cons, get?_append, get?_set, Option.or_assoc]
    congr 1
    rw [get?_cons]
    split <;> rfl

theorem isSome_get?_iff : (get? t key).isSome ↔ key ∈ keys t := by
  constructor
  · intro h
    obtain ⟨v, hv⟩ := Option.isSome_iff_exists.mp h
    exact mem_keys_of_get? t hv
  · intro hm
    induction t with
    | nil => exact absurd hm List.not_mem_nil
    | cons e t ih =>
      obtain ⟨k, w⟩ := e
      rw [get?_cons]
      split
      · rfl
      next hk => exact ih ((List.mem_cons.mp hm).resolve_left (Ne.symm hk))

theorem get?_of_mem (h : (keys t).Nodup) (hm : (key, v) ∈ t) : get? t key = some v := by
  induction t with
  | nil => exact absurd hm List.not_mem_nil
  | cons e t ih =>
    obtain ⟨k, w⟩ := e
    obtain ⟨hk, ht⟩ := List.nodup_cons.mp h
    rcases List.mem_cons.mp hm with he | hm
    · obtain ⟨rfl, rfl⟩ := Prod.mk.inj he
      simp
    · have hne : k ≠ key := by
        rintro rfl
        exact hk (List.mem_map.mpr ⟨_, hm, rfl⟩)
      rw [get?_cons, if_neg hne, ih ht hm]

theorem get?_reverse (h : (keys t).Nodup) (key : κ) : get? t.reverse key = get? t key := by
  induction t with
  | nil => rfl
  | cons e t ih =>
    obtain ⟨k, v⟩ := e
    obtain ⟨hk, ht⟩ := List.nodup_cons.mp h
    rw [List.reverse_cons, get?_append, ih ht, get?_cons, get?_cons]
    split
    next he =>
      subst he
      rw [Option.not_isSome_iff_eq_none.mp (mt isSome_get?_iff.mp hk)]
      rfl
    · simp

/-- A table of distinct keys that is merged in stands over what was there. -/
theorem get?_merge_of_nodup (t : Table κ α) {u : Table κ α} (h : (keys u).Nodup) (key : κ) :
    get? (merge t u) key = (get? u key).or (get? t key) := by
  rw [get?_merge, get?_reverse h]

/-- A table of entries without a repeated key is those entries. -/
theorem ofList_eq_self (h : (keys t).Nodup) : ofList t = t := merge_eq_append h

end Table

namespace Value

mutual
/-- Whether a value is data through and through. -/
def isData : Value → Bool
  | undef | bool _ | integer _ | float _ | string _ => true
  | array items => isDataItems items
  | hash entries => decide (Table.keys entries).Nodup && isDataEntries entries
  | default | type .. | regex _ | resource .. => false

def isDataItems : List Value → Bool
  | [] => true
  | v :: vs => isData v && isDataItems vs

def isDataEntries : List (String × Value) → Bool
  | [] => true
  | (_, v) :: es => isData v && isDataEntries es
end

theorem isDataItems_iff {vs : List Value} :
    isDataItems vs = true ↔ ∀ v ∈ vs, v.isData = true := by
  induction vs with
  | nil => simp [isDataItems]
  | cons v vs ih => simp [isDataItems, ih]

theorem isDataEntries_iff {es : List (String × Value)} :
    isDataEntries es = true ↔ ∀ e ∈ es, isData e.2 = true := by
  induction es with
  | nil => simp [isDataEntries]
  | cons e es ih =>
    obtain ⟨k, v⟩ := e
    simp [isDataEntries, ih]

theorem int64?_toInt (n : Int64) : int64? n.toInt = some n := by
  have hmin := Int64.le_toInt n
  have hmax := Int64.toInt_lt n
  rw [int64?, if_pos (by omega), Int64.ofInt_toInt]

mutual
/-- Data is read from YAML as it was written. -/
theorem ofYaml_toYaml : ∀ v : Value, v.isData = true → ofYaml v.toYaml = v
  | undef, _ | bool _, _ | float _, _ | string _, _ => rfl
  | integer n, _ => by rw [toYaml, ofYaml, ofYamlInteger, int64?_toInt]
  | array items, h => by
    rw [isData] at h
    rw [toYaml, ofYaml, ofYamlItems_toYamlItems items h]
  | hash entries, h => by
    rw [isData, Bool.and_eq_true, decide_eq_true_eq] at h
    rw [toYaml, ofYaml, ofYamlEntries_toYamlEntries entries h.2, Table.ofList_eq_self h.1]
  | default, h | type .., h | regex _, h | resource .., h => absurd h (by simp [isData])

theorem ofYamlItems_toYamlItems : ∀ vs : List Value, isDataItems vs = true →
    ofYamlItems (toYamlItems vs) = vs
  | [], _ => rfl
  | v :: vs, h => by
    rw [isDataItems, Bool.and_eq_true] at h
    rw [toYamlItems, ofYamlItems, ofYaml_toYaml v h.1, ofYamlItems_toYamlItems vs h.2]

theorem ofYamlEntries_toYamlEntries : ∀ es : List (String × Value), isDataEntries es = true →
    ofYamlEntries (toYamlEntries es) = es
  | [], _ => rfl
  | (k, v) :: es, h => by
    rw [isDataEntries, Bool.and_eq_true] at h
    rw [toYamlEntries, ofYamlEntries, keyOfYaml, ofYaml_toYaml v h.1,
      ofYamlEntries_toYamlEntries es h.2]
end

mutual
/-- All that is read from YAML is data. -/
theorem isData_ofYaml : ∀ y : Yaml, (ofYaml y).isData = true
  | .null | .bool _ | .float _ | .string _ => rfl
  | .integer n => by
    rw [ofYaml, ofYamlInteger]
    cases int64? n <;> rfl
  | .sequence items => by
    rw [ofYaml, isData]
    exact isDataItems_ofYamlItems items
  | .mapping entries => by
    rw [ofYaml, isData, Bool.and_eq_true, decide_eq_true_eq]
    refine ⟨Table.nodup_keys_merge List.nodup_nil, isDataEntries_iff.mpr fun e he => ?_⟩
    rcases Table.mem_of_mem_merge he with he | he
    · exact absurd he List.not_mem_nil
    · exact isDataEntries_iff.mp (isDataEntries_ofYamlEntries entries) e he
  | .tagged _ y => by
    rw [ofYaml]
    exact isData_ofYaml y

theorem isDataItems_ofYamlItems : ∀ ys : List Yaml, isDataItems (ofYamlItems ys) = true
  | [] => rfl
  | y :: ys => by
    rw [ofYamlItems, isDataItems, isData_ofYaml y, isDataItems_ofYamlItems ys]
    rfl

theorem isDataEntries_ofYamlEntries : ∀ es : List (Yaml × Yaml),
    isDataEntries (ofYamlEntries es) = true
  | [] => rfl
  | (k, y) :: es => by
    rw [ofYamlEntries, isDataEntries, isData_ofYaml y, isDataEntries_ofYamlEntries es]
    rfl
end

end Value
end Cascade
