/-!
Tables: association lists that keep the order in which keys first came. Setting a present key
replaces its value in place, setting a new one appends it, and erasing keeps the order of the rest.
Facts, data files, hashes, properties and caches are all tables; the view of a table is `get?`.
-/
namespace Cascade

abbrev Table (κ : Type) (α : Type) := List (κ × α)

namespace Table

variable {κ α β : Type} [DecidableEq κ]

def get? : Table κ α → κ → Option α
  | [], _ => none
  | (k, v) :: t, key => if k = key then some v else get? t key

def set : Table κ α → κ → α → Table κ α
  | [], key, v => [(key, v)]
  | (k, w) :: t, key, v => if k = key then (key, v) :: t else (k, w) :: set t key v

def erase : Table κ α → κ → Table κ α
  | [], _ => []
  | (k, v) :: t, key => if k = key then erase t key else (k, v) :: erase t key

def contains (t : Table κ α) (key : κ) : Bool := (get? t key).isSome

def keys (t : Table κ α) : List κ := t.map (·.1)

/-- Adds the entries of `u` one after another, so that the last value of a repeated key wins. -/
def merge (t u : Table κ α) : Table κ α := u.foldl (fun t e => set t e.1 e.2) t

def ofList (entries : List (κ × α)) : Table κ α := merge [] entries

def mapValues (f : α → β) (t : Table κ α) : Table κ β := t.map fun e => (e.1, f e.2)

@[simp] theorem get?_nil (key : κ) : get? ([] : Table κ α) key = none := rfl

@[simp] theorem get?_cons (k key : κ) (v : α) (t : Table κ α) :
    get? ((k, v) :: t) key = if k = key then some v else get? t key := rfl

theorem get?_append (t u : Table κ α) (key : κ) :
    get? (t ++ u) key = (get? t key).or (get? u key) := by
  induction t with
  | nil => simp
  | cons e t ih =>
    obtain ⟨k, v⟩ := e
    rw [List.cons_append, get?_cons, get?_cons, ih]
    split <;> rfl

theorem get?_set (t : Table κ α) (key other : κ) (v : α) :
    get? (set t key v) other = if key = other then some v else get? t other := by
  induction t with
  | nil => simp [set]
  | cons e t ih =>
    obtain ⟨k, w⟩ := e
    by_cases h : k = key
    · subst h; by_cases ho : k = other <;> simp [set, ho]
    · by_cases ho : k = other
      · subst ho; simp [set, h, Ne.symm h]
      · simp [set, h, ho, ih]

@[simp] theorem get?_set_self (t : Table κ α) (key : κ) (v : α) :
    get? (set t key v) key = some v := by simp [get?_set]

theorem get?_set_ne (t : Table κ α) {key other : κ} (h : key ≠ other) (v : α) :
    get? (set t key v) other = get? t other := by simp [get?_set, h]

theorem get?_erase (t : Table κ α) (key other : κ) :
    get? (erase t key) other = if key = other then none else get? t other := by
  induction t with
  | nil => simp [erase]
  | cons e t ih =>
    obtain ⟨k, w⟩ := e
    by_cases h : k = key
    · subst h
      by_cases ho : k = other
      · subst ho; simpa [erase] using ih
      · simp [erase, ho, ih]
    · by_cases ho : k = other
      · subst ho; simp [erase, h, Ne.symm h]
      · simp [erase, h, ho, ih]

@[simp] theorem get?_erase_self (t : Table κ α) (key : κ) : get? (erase t key) key = none := by
  simp [get?_erase]

theorem length_set (t : Table κ α) (key : κ) (v : α) :
    (set t key v).length = if (get? t key).isSome then t.length else t.length + 1 := by
  induction t with
  | nil => rfl
  | cons e t ih =>
    obtain ⟨k, w⟩ := e
    by_cases h : k = key
    · simp [set, h]
    · simp only [set, h, ↓reduceIte, List.length_cons, get?_cons, ih]
      split <;> rfl

theorem mem_of_get? {t : Table κ α} {key : κ} {v : α} (h : get? t key = some v) : (key, v) ∈ t := by
  induction t with
  | nil => simp at h
  | cons e t ih =>
    obtain ⟨k, w⟩ := e
    by_cases hk : k = key
    · simp_all
    · rw [get?_cons, if_neg hk] at h
      exact List.mem_cons_of_mem _ (ih h)

theorem mem_keys_of_get? (t : Table κ α) {key : κ} {v : α} (h : get? t key = some v) :
    key ∈ keys t :=
  List.mem_map_of_mem (mem_of_get? h)

theorem get?_mapValues (f : α → β) (t : Table κ α) (key : κ) :
    get? (mapValues f t) key = (get? t key).map f := by
  induction t with
  | nil => rfl
  | cons e t ih =>
    obtain ⟨k, v⟩ := e
    change get? ((k, f v) :: mapValues f t) key = _
    by_cases h : k = key <;> simp [h, ih]

omit [DecidableEq κ] in
theorem keys_mapValues (f : α → β) (t : Table κ α) : keys (mapValues f t) = keys t := by
  rw [keys, mapValues, List.map_map]
  rfl

/-- What a value adds to a list that leaves out the values of its key is nothing. -/
theorem filterMap_set {t : Table κ α} {key : κ} {v : α} {f : κ × α → Option β}
    (hold : ∀ w, get? t key = some w → f (key, w) = none) (hnew : f (key, v) = none) :
    (set t key v).filterMap f = t.filterMap f := by
  induction t with
  | nil => simp [set, hnew]
  | cons e t ih =>
    obtain ⟨k, w⟩ := e
    by_cases hk : k = key
    · subst hk
      have hw : f (k, w) = none := hold w (by simp)
      simp [set, hnew, hw]
    · rw [set, if_neg hk, List.filterMap_cons, List.filterMap_cons, ih fun w' hw' =>
        hold w' (by rw [get?_cons, if_neg hk, hw'])]

end Table
end Cascade
