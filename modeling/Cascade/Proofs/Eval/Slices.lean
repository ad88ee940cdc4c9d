import Cascade.Eval.Access
import Cascade.Proofs.Eval.Arithmetic
/-!
Reading arrays and strings by positions. For every sequence and all 64-bit integers a position gives the
item it denotes, a slice ends where its count or the sequence ends, and slices that meet make up one slice.

`access` computes with numbers of any size. `Word` reads sequences as a machine does, with integers of 64
bits and lengths of one word, so that a sum may overflow, a place may lie outside, and the start of a slice
may lie behind its end. On whatever a memory can hold none of this happens, and both come to the same.
-/
namespace Cascade

variable {α : Type} {items : List α} {n p : Nat} {i s c : Int}

namespace Value

/-- The place that a position names in a sequence of `n`: a position counts from the front, or from the
end if it is negative. -/
inductive Denotes (n : Nat) (i : Int) : Nat → Prop
  | front (hlow : 0 ≤ i) (hhigh : i < n) : Denotes n i i.toNat
  | back (hlow : -n ≤ i) (hhigh : i < 0) : Denotes n i (n + i).toNat

theorem Denotes.lt (h : Denotes n i p) : p < n := by
  cases h <;> omega

theorem position?_eq_some_iff : position? n i = some p ↔ Denotes n i p := by
  by_cases hneg : i < 0
  · simp only [position?, hneg, if_true, Option.ite_none_right_eq_some, Option.some.injEq]
    constructor
    · rintro ⟨⟨hlow, -⟩, rfl⟩
      exact .back (by omega) hneg
    · rintro (⟨hlow, -⟩ | ⟨hlow, -⟩)
      · omega
      · exact ⟨by omega, rfl⟩
  · simp only [position?, hneg, if_false, Option.ite_none_right_eq_some, Option.some.injEq]
    constructor
    · rintro ⟨⟨hlow, hhigh⟩, rfl⟩
      exact .front hlow hhigh
    · rintro (⟨hlow, hhigh⟩ | ⟨-, hhigh⟩)
      · exact ⟨⟨hlow, hhigh⟩, rfl⟩
      · exact absurd hhigh hneg

theorem position?_eq_none_iff : position? n i = none ↔ ¬∃ p, Denotes n i p := by
  simp only [← position?_eq_some_iff, ← Option.isSome_iff_exists, Option.not_isSome_iff_eq_none]

/-- Where a slice from place `p` on ends in a sequence of `n`. -/
def sliceEnd (n p : Nat) (count : Int) : Nat := if count < 0 then n else min n (p + count.toNat)

theorem le_sliceEnd (h : p ≤ n) : p ≤ sliceEnd n p c := by
  unfold sliceEnd
  split <;> omega

theorem sliceEnd_le : sliceEnd n p c ≤ n := by
  unfold sliceEnd
  split <;> omega

theorem slice_of_position (h : position? items.length s = some p) :
    slice items s c = items.extract p (sliceEnd items.length p c) := by
  rw [slice, h, List.extract_eq_take_drop, sliceEnd]
  by_cases hc : c < 0
  · simp only [hc, if_true]
    exact (List.take_of_length_le (by rw [List.length_drop])).symm
  · simp only [hc, if_false]
    rw [List.take_eq_take_iff, List.length_drop]
    omega

theorem slice_of_outside (h : position? items.length s = none) : slice items s c = [] := by
  rw [slice, h]

/-- Counted from the front, a start needs no check: behind the end nothing is left. -/
theorem slice_of_nonneg (items : List α) (hs : 0 ≤ s) (hc : 0 ≤ c) :
    slice items s c = (items.drop s.toNat).take c.toNat := by
  by_cases hin : s < items.length
  · rw [slice, position?_eq_some_iff.mpr (.front hs hin)]
    exact if_neg (by omega)
  · have hout : position? items.length s = none := by
      rw [position?_eq_none_iff]
      rintro ⟨p, ⟨⟩⟩ <;> omega
    rw [slice_of_outside hout, List.drop_of_length_le (by omega), List.take_nil]

theorem slice_append {a b : Int} (items : List α) (hs : 0 ≤ s) (ha : 0 ≤ a) (hb : 0 ≤ b) :
    slice items s a ++ slice items (s + a) b = slice items s (a + b) := by
  rw [slice_of_nonneg items hs ha, slice_of_nonneg items (Int.add_nonneg hs ha) hb,
    slice_of_nonneg items hs (Int.add_nonneg ha hb), Int.toNat_add hs ha, Int.toNat_add ha hb,
    List.take_add, List.drop_drop]

end Value

/-! ### Reading by words -/

namespace Word

open Value (fits position? sliceEnd)

/-- What a machine stops at. -/
inductive Trap
  | overflow
  | outside

/-- A length as an integer, if 64 bits hold it. -/
def integer? (n : USize) : Option Int64 :=
  if n.toNat < 0x8000000000000000 then some (Int64.ofNat n.toNat) else none

/-- An integer as a length, if a word holds it. -/
def size? (i : Int64) : Option USize :=
  if 0 ≤ i.toInt ∧ i.toInt < USize.size then some (USize.ofNat i.toInt.toNat) else none

def add (a b : Int64) : Except Trap Int64 :=
  if fits (a.toInt + b.toInt) then .ok (a + b) else .error .overflow

/-- The sum of two lengths, or the greatest length if the sum is beyond it. -/
def addSaturating (a b : USize) : USize := USize.ofNat (min (a.toNat + b.toNat) (USize.size - 1))

/-- The place that an integer is, counted from the front. -/
def place? (n i : Int64) : Option USize := if 0 ≤ i ∧ i < n then size? i else none

def position (length : USize) (i : Int64) : Except Trap (Option USize) :=
  match integer? length with
  | none => .ok none
  | some n => (if i < 0 then add n i else .ok i).map (place? n)

/-- The item at a place, which has to be inside. -/
def get (items : List α) (p : USize) : Except Trap α :=
  match items[p.toNat]? with
  | some x => .ok x
  | none => .error .outside

/-- The items from one place up to another, which have to be in this order and inside. -/
def between (items : List α) (start stop : USize) : Except Trap (List α) :=
  if start ≤ stop ∧ stop.toNat ≤ items.length then .ok (items.extract start.toNat stop.toNat)
  else .error .outside

/-- The item at a position, if it has a place. -/
def element (items : List α) (i : Int64) : Except Trap (Option α) := do
  match ← position (USize.ofNat items.length) i with
  | none => return none
  | some p => return some (← get items p)

/-- Where a slice from place `p` on ends. -/
def stop (length p : USize) (count : Int64) : USize :=
  if count < 0 then length
  else match size? count with
    | none => length
    | some c => min (addSaturating p c) length

def slice (items : List α) (start count : Int64) : Except Trap (List α) := do
  let length := USize.ofNat items.length
  match ← position length start with
  | none => return []
  | some p => between items p (stop length p count)

theorem toInt_add {a b : Int64} (h : Value.Representable (a.toInt + b.toInt)) :
    (a + b).toInt = a.toInt + b.toInt := by
  obtain ⟨r, hr⟩ := h
  have hsum : a + b = r := by
    rw [← Int64.ofInt_toInt a, ← Int64.ofInt_toInt b, ← Int64.ofInt_add, ← hr, Int64.ofInt_toInt]
  rw [hsum, hr]

theorem add_of_representable {a b : Int64} (h : Value.Representable (a.toInt + b.toInt)) :
    add a b = .ok (a + b) := if_pos (Value.fits_iff.mpr h)

theorem integer?_of_lt (hw : n < USize.size) (hn : n < 0x8000000000000000) :
    integer? (USize.ofNat n) = some (Int64.ofNat n) := by
  rw [integer?, USize.toNat_ofNat_of_lt' hw, if_pos hn]

/-- An integer from zero up to a length is a place. -/
theorem size?_of_lt {i : Int64} (hw : n < USize.size) (hlow : 0 ≤ i.toInt) (hhigh : i.toInt < n) :
    size? i = some (USize.ofNat i.toInt.toNat) := if_pos ⟨hlow, by omega⟩

theorem place?_eq (hw : n < USize.size) (hn : n < 0x8000000000000000) (i : Int64) :
    place? (Int64.ofNat n) i =
      (if 0 ≤ i.toInt ∧ i.toInt < n then some i.toInt.toNat else none).map USize.ofNat := by
  have hiff : (0 ≤ i ∧ i < Int64.ofNat n) ↔ 0 ≤ i.toInt ∧ i.toInt < n := by
    rw [Int64.le_iff_toInt_le, Int64.lt_iff_toInt_lt, Int64.toInt_ofNat_of_lt hn, Int64.toInt_zero]
  by_cases hin : 0 ≤ i.toInt ∧ i.toInt < n
  · rw [place?, if_pos (hiff.mpr hin), if_pos hin, size?_of_lt hw hin.1 hin.2, Option.map_some]
  · rw [place?, if_neg (mt hiff.mp hin), if_neg hin, Option.map_none]

/-- A length and a negative position have a sum of 64 bits, as it lies between the two. -/
theorem representable_length_add (hn : n < 0x8000000000000000) {i : Int64} (hneg : i.toInt < 0) :
    Value.Representable (n + i.toInt) := by
  have hmin := i.le_toInt
  rw [Value.representable_iff]
  omega

theorem position_eq (hw : n < USize.size) (hn : n < 0x8000000000000000) (i : Int64) :
    position (USize.ofNat n) i = .ok ((position? n i.toInt).map USize.ofNat) := by
  rw [position, integer?_of_lt hw hn, position?]
  by_cases hneg : i < 0
  · have hneg' : i.toInt < 0 := Int64.lt_iff_toInt_lt.mp hneg
    have hfits : Value.Representable ((Int64.ofNat n).toInt + i.toInt) := by
      rw [Int64.toInt_ofNat_of_lt hn]
      exact representable_length_add hn hneg'
    have hsum : (Int64.ofNat n + i).toInt = n + i.toInt := by
      rw [toInt_add hfits, Int64.toInt_ofNat_of_lt hn]
    simp only [hneg, hneg', if_true]
    rw [add_of_representable hfits, ← hsum, ← place?_eq hw hn]
    rfl
  · have hneg' : ¬i.toInt < 0 := fun h => hneg (Int64.lt_iff_toInt_lt.mpr h)
    simp only [hneg, hneg', if_false]
    rw [← place?_eq hw hn]
    rfl

theorem toNat_addSaturating (a b : USize) :
    (addSaturating a b).toNat = min (a.toNat + b.toNat) (USize.size - 1) := by
  have hsize := USize.le_size
  exact USize.toNat_ofNat_of_lt' (by omega)

theorem toNat_min (a b : USize) : (min a b).toNat = min a.toNat b.toNat := by
  rw [Nat.min_def]
  change (if a ≤ b then a else b).toNat = _
  simp only [USize.le_iff_toNat_le]
  split <;> rfl

theorem size?_eq_none {i : Int64} (h : size? i = none) (hi : 0 ≤ i.toInt) : USize.size ≤ i.toInt := by
  by_contra hlt
  rw [size?, if_pos ⟨hi, by omega⟩] at h
  exact absurd h nofun

theorem toNat_of_size? {i : Int64} {k : USize} (h : size? i = some k) : k.toNat = i.toInt.toNat := by
  rw [size?, Option.ite_none_right_eq_some, Option.some.injEq] at h
  obtain ⟨⟨hlow, hhigh⟩, rfl⟩ := h
  exact USize.toNat_ofNat_of_lt' (by omega)

/-- The end of a slice in words: a sum that saturates reaches beyond every sequence, and so does a count
that is no length. -/
theorem toNat_stop (length p : USize) (count : Int64) :
    (stop length p count).toNat = sliceEnd length.toNat p.toNat count.toInt := by
  have hlen := length.toNat_lt_size
  by_cases hneg : count < 0
  · have hneg' : count.toInt < 0 := Int64.lt_iff_toInt_lt.mp hneg
    rw [stop, if_pos hneg, sliceEnd, if_pos hneg']
  · have hneg' : ¬count.toInt < 0 := fun h => hneg (Int64.lt_iff_toInt_lt.mpr h)
    rw [stop, if_neg hneg, sliceEnd, if_neg hneg']
    split
    next hsize =>
      have hbig := size?_eq_none hsize (by omega)
      omega
    next k hsize =>
      rw [toNat_min, toNat_addSaturating, toNat_of_size? hsize]
      omega

theorem between_eq {start stop : USize} (hle : start.toNat ≤ stop.toNat)
    (hin : stop.toNat ≤ items.length) :
    between items start stop = .ok (items.extract start.toNat stop.toNat) :=
  if_pos ⟨USize.le_iff_toNat_le.mpr hle, hin⟩

/-- A memory holds fewer items than half of what a word can count, so their number is a word and an
integer of 64 bits. -/
theorem lengths_of_held (h : 2 * items.length < USize.size) :
    items.length < USize.size ∧ items.length < 0x8000000000000000 := by
  have hsize := USize.size_le
  omega

/-- A machine reads the item at a position without a trap. -/
theorem element_eq (h : 2 * items.length < USize.size) (i : Int64) :
    element items i = .ok ((position? items.length i.toInt).bind fun p => items[p]?) := by
  obtain ⟨hw, hn⟩ := lengths_of_held h
  rw [element, position_eq hw hn]
  cases hp : position? items.length i.toInt with
  | none => rfl
  | some p =>
    have hlt := (Value.position?_eq_some_iff.mp hp).lt
    have hget : get items (USize.ofNat p) = .ok items[p] := by
      rw [get, USize.toNat_ofNat_of_lt' (by omega), List.getElem?_eq_getElem hlt]
    change (get items (USize.ofNat p)).map some = _
    rw [hget, Option.bind_some, List.getElem?_eq_getElem hlt]
    rfl

/-- A machine reads a slice without a trap: its start and its end never cross. -/
theorem slice_eq (h : 2 * items.length < USize.size) (s c : Int64) :
    slice items s c = .ok (Value.slice items s.toInt c.toInt) := by
  obtain ⟨hw, hn⟩ := lengths_of_held h
  rw [slice, position_eq hw hn]
  cases hp : position? items.length s.toInt with
  | none => rw [Value.slice_of_outside hp]; rfl
  | some p =>
    have hlt := (Value.position?_eq_some_iff.mp hp).lt
    have hstart : (USize.ofNat p).toNat = p := USize.toNat_ofNat_of_lt' (by omega)
    have hstop := toNat_stop (USize.ofNat items.length) (USize.ofNat p) c
    rw [USize.toNat_ofNat_of_lt' hw, hstart] at hstop
    have hle : p ≤ sliceEnd items.length p c.toInt := Value.le_sliceEnd (Nat.le_of_lt hlt)
    have hin : sliceEnd items.length p c.toInt ≤ items.length := Value.sliceEnd_le
    change between items _ _ = _
    rw [between_eq (by omega) (by omega), hstart, hstop, Value.slice_of_position hp]

end Word

/-! ### Arrays and strings -/

/-- What is read by positions: arrays by their elements, strings by their characters. -/
inductive Sequence
  | array
  | string

namespace Sequence

open Value (access position? sliceEnd Denotes)

abbrev Item : Sequence → Type
  | array => Value
  | string => Char

/-- The value that items make up. -/
def whole : (q : Sequence) → List q.Item → Value
  | array, items => .array items
  | string, chars => .string (String.ofList chars)

@[simp] theorem whole_toList (s : String) : string.whole s.toList = .string s := by
  rw [whole, String.ofList_toList]

/-- An item as a value; a character is a string. -/
def part : (q : Sequence) → q.Item → Value
  | array, v => v
  | string, c => .string (String.singleton c)

theorem access_element (q : Sequence) (items : List q.Item) (i : Int64) :
    access (q.whole items) [.integer i] =
      .ok (((position? items.length i.toInt).bind fun p => items[p]?).elim .undef q.part) := by
  cases q with
  | array =>
    change Except.ok (((position? items.length i.toInt).bind fun p => items[p]?).getD _) = _
    cases (position? items.length i.toInt).bind fun p => items[p]? <;> rfl
  | string =>
    change Except.ok (((position? (String.ofList items).length i.toInt).bind
      fun p => (String.ofList items).toList[p]?).elim _ _) = _
    rw [String.length_ofList, String.toList_ofList]
    rfl

theorem access_slice (q : Sequence) (items : List q.Item) (s c : Int64) :
    access (q.whole items) [.integer s, .integer c] =
      .ok (q.whole (Value.slice items s.toInt c.toInt)) := by
  cases q with
  | array => rfl
  | string =>
    change Except.ok (Value.string (String.ofList
      (Value.slice (String.ofList items).toList s.toInt c.toInt))) = _
    rw [String.toList_ofList]
    rfl

/-- If 64 bits hold a sum of integers none of which is negative, they hold its parts. -/
theorem sums_of_representable {s a b : Int64} (hs : 0 ≤ s.toInt) (ha : 0 ≤ a.toInt) (hb : 0 ≤ b.toInt)
    (h : Value.Representable (s.toInt + a.toInt + b.toInt)) :
    Value.Representable (s.toInt + a.toInt) ∧ Value.Representable (a.toInt + b.toInt) := by
  simp only [Value.representable_iff] at h ⊢
  omega

theorem binary_add_of_representable {a b : Int64} (h : Value.Representable (a.toInt + b.toInt)) :
    Value.binary .add (.integer a) (.integer b) = .ok (.integer (a + b)) := by
  change Value.checked "+" (a.toInt + b.toInt) = _
  rw [← Word.toInt_add h, Value.checked_toInt]

/-- Arrays and strings are read at every position, and from every position on for every count. A position
has the item it denotes, and a slice has the items from the place of its start to its end; where nothing is
denoted there is `undef` or no item. A machine reads the same without a trap from whatever a memory can
hold. Two slices, the second of which starts where the first one ends, make up one slice. -/
theorem slices_exact (q : Sequence) (items : List q.Item) :
    (∀ i : Int64,
      (∀ p, Denotes items.length i.toInt p →
        ∃ x, items[p]? = some x ∧ access (q.whole items) [.integer i] = .ok (q.part x)) ∧
      ((¬∃ p, Denotes items.length i.toInt p) →
        access (q.whole items) [.integer i] = .ok .undef)) ∧
    (∀ s c : Int64,
      (∀ p, Denotes items.length s.toInt p → access (q.whole items) [.integer s, .integer c] =
        .ok (q.whole (items.extract p (sliceEnd items.length p c.toInt)))) ∧
      ((¬∃ p, Denotes items.length s.toInt p) →
        access (q.whole items) [.integer s, .integer c] = .ok (q.whole []))) ∧
    (2 * items.length < USize.size → ∀ i s c : Int64, ∃ x part,
      Word.element items i = .ok x ∧
      access (q.whole items) [.integer i] = .ok (x.elim .undef q.part) ∧
      Word.slice items s c = .ok part ∧
      access (q.whole items) [.integer s, .integer c] = .ok (q.whole part)) ∧
    ∀ s a b : Int64, 0 ≤ s → 0 ≤ a → 0 ≤ b → Value.Representable (s.toInt + a.toInt + b.toInt) →
      Value.binary .add (.integer s) (.integer a) = .ok (.integer (s + a)) ∧
      Value.binary .add (.integer a) (.integer b) = .ok (.integer (a + b)) ∧
      ∃ left right, access (q.whole items) [.integer s, .integer a] = .ok (q.whole left) ∧
        access (q.whole items) [.integer (s + a), .integer b] = .ok (q.whole right) ∧
        access (q.whole items) [.integer s, .integer (a + b)] = .ok (q.whole (left ++ right)) := by
  refine ⟨fun i => ⟨fun p hp => ?_, fun hout => ?_⟩, fun s c => ⟨fun p hp => ?_, fun hout => ?_⟩,
    fun hheld i s c => ?_, fun s a b hs ha hb hsum => ?_⟩
  · have hget := List.getElem?_eq_getElem hp.lt
    refine ⟨_, hget, ?_⟩
    rw [access_element, Value.position?_eq_some_iff.mpr hp, Option.bind_some, hget]
    rfl
  · rw [access_element, Value.position?_eq_none_iff.mpr hout]
    rfl
  · rw [access_slice, Value.slice_of_position (Value.position?_eq_some_iff.mpr hp)]
  · rw [access_slice, Value.slice_of_outside (Value.position?_eq_none_iff.mpr hout)]
  · exact ⟨_, _, Word.element_eq hheld i, access_element q items i, Word.slice_eq hheld s c,
      access_slice q items s c⟩
  · have hs : 0 ≤ s.toInt := Int64.le_iff_toInt_le.mp hs
    have ha : 0 ≤ a.toInt := Int64.le_iff_toInt_le.mp ha
    have hb : 0 ≤ b.toInt := Int64.le_iff_toInt_le.mp hb
    obtain ⟨hsa, hab⟩ := sums_of_representable hs ha hb hsum
    refine ⟨binary_add_of_representable hsa, binary_add_of_representable hab, _, _,
      access_slice q items s a, access_slice q items (s + a) b, ?_⟩
    rw [access_slice, Word.toInt_add hsa, Word.toInt_add hab, Value.slice_append items hs ha hb]

/-- Positions and counts at the limits of what 64 bits hold. -/
theorem slices_exact_letters :
    let x := Value.string "größe"
    let n := "größe".toList.length
    let most := Int64.maxValue
    Denotes n (-2) 3 ∧ access x [.integer (-2)] = .ok (.string "ß") ∧
    (¬∃ p, Denotes n Int64.minValue.toInt p) ∧ access x [.integer Int64.minValue] = .ok .undef ∧
    access x [.integer (-2), .integer most] = .ok (.string "ße") ∧
    access x [.integer Int64.minValue, .integer most] = .ok (.string "") ∧
    2 * n < USize.size ∧ (∃ part, Word.slice "größe".toList (-2) most = .ok part) ∧
    Value.Representable (Int64.toInt 1 + Int64.toInt 2 + (most - 3).toInt) ∧
    ∃ left right, access x [.integer 1, .integer 2] = .ok (string.whole left) ∧
      access x [.integer (1 + 2), .integer (most - 3)] = .ok (string.whole right) ∧
      access x [.integer 1, .integer (2 + (most - 3))] = .ok (string.whole (left ++ right)) := by
  intro x n most
  obtain ⟨helement, hslice, hword, hmeet⟩ := slices_exact .string "größe".toList
  rw [whole_toList] at helement hslice hword hmeet
  have hback : Denotes n (-2) 3 := .back (by decide) (by decide)
  have hout : ¬∃ p, Denotes n Int64.minValue.toInt p := by
    rintro ⟨p, h | ⟨hlow, -⟩⟩
    · exact absurd h (by decide)
    · exact absurd hlow (by decide)
  have hheld : 2 * n < USize.size := by
    have hsize := USize.le_size
    have hn : n = 5 := rfl
    omega
  have hsum : Value.Representable (Int64.toInt 1 + Int64.toInt 2 + (most - 3).toInt) :=
    ⟨most, by decide⟩
  obtain ⟨c, hc, hread⟩ := (helement (-2)).1 3 hback
  obtain ⟨-, part, -, -, hpart, -⟩ := hword hheld 0 (-2) most
  obtain ⟨-, -, hlaw⟩ := hmeet 1 2 (most - 3) (by decide) (by decide) (by decide) hsum
  refine ⟨hback, ?_, hout, (helement _).2 hout, (hslice _ _).1 3 hback, (hslice _ _).2 hout, hheld,
    ⟨part, hpart⟩, hsum, hlaw⟩
  obtain rfl : 'ß' = c := Option.some.inj hc
  exact hread

end Sequence
end Cascade
