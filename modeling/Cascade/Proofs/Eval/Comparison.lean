import Cascade.Eval.Operators
import Cascade.Proofs.Name
/-!
Comparison and equality. Integers are in one order, to which `==` belongs. Strings are ordered by their
lower-case forms in the sense of Unicode, but are equal only up to the case of ASCII letters; so the
operators make up one order just for strings that have equal lower-case forms only if they are equal.
-/
namespace Cascade

namespace Text

theorem inRanges_iff {ranges : List (Nat × Nat)} {c : Char} :
    inRanges ranges c = true ↔ ∃ r ∈ ranges, r.1 ≤ c.toNat ∧ c.toNat ≤ r.2 := by
  simp [inRanges]

/-- ASCII letters have case. -/
theorem letters_cased : (0x41, 0x5a) ∈ casedRanges ∧ (0x61, 0x7a) ∈ casedRanges := by decide +kernel

/-- ASCII letters are among the characters that count at the end of a word. -/
theorem letters_not_ignorable : caseIgnorableRanges.all (fun r =>
    (r.2 < 0x41 || 0x5a < r.1) && (r.2 < 0x61 || 0x7a < r.1)) = true := by
  decide +kernel

variable {c : Char} {a b : String}

/-- Whether a character is a letter of ASCII. -/
def IsLetter (c : Char) : Prop := 0x41 ≤ c.toNat ∧ c.toNat ≤ 0x5a ∨ 0x61 ≤ c.toNat ∧ c.toNat ≤ 0x7a

theorem isCased_of_isLetter (h : IsLetter c) : isCased c = true :=
  inRanges_iff.mpr (h.elim (fun h => ⟨_, letters_cased.1, h⟩) fun h => ⟨_, letters_cased.2, h⟩)

theorem isCaseIgnorable_of_isLetter (h : IsLetter c) : isCaseIgnorable c = false := by
  refine Bool.eq_false_iff.mpr fun hi => ?_
  obtain ⟨r, hr, hle⟩ := inRanges_iff.mp hi
  have hout := List.all_eq_true.mp letters_not_ignorable r hr
  simp only [Bool.and_eq_true, Bool.or_eq_true, decide_eq_true_eq] at hout
  unfold IsLetter at h
  omega

theorem toNat_toLower_upper : ∀ n < 26, (Char.ofNat (n + 0x41)).toLower.toNat = n + 0x61 := by decide

/-- Only a letter has another lower case in ASCII, and that is a letter too. -/
theorem isLetter_of_toLower_ne (h : c.toLower ≠ c) : IsLetter c ∧ IsLetter c.toLower := by
  have hupper : c.isUpper = true := by
    by_contra hu
    exact h (Char.toLower_eq_of_not_isUpper hu)
  obtain ⟨hmin, hmax⟩ := of_decide_eq_true hupper
  have hmin : 0x41 ≤ c.toNat := UInt32.le_iff_toNat_le.mp hmin
  have hmax : c.toNat ≤ 0x5a := UInt32.le_iff_toNat_le.mp hmax
  have hlower := toNat_toLower_upper (c.toNat - 0x41) (by omega)
  rw [Nat.sub_add_cancel hmin, Char.ofNat_toNat] at hlower
  unfold IsLetter
  omega

theorem IsLetter.lt (h : IsLetter c) : c.toNat < 128 := by
  unfold IsLetter at h
  omega

theorem toLower_eq_self (h : ¬c.toNat < 128) : c.toLower = c := by
  by_contra hne
  exact h (isLetter_of_toLower_ne hne).1.lt

theorem toLower_lt (h : c.toNat < 128) : c.toLower.toNat < 128 := by
  by_cases he : c.toLower = c
  · rwa [he]
  · exact (isLetter_of_toLower_ne he).2.lt

theorem isCased_toLower (c : Char) : isCased c.toLower = isCased c := by
  by_cases h : c.toLower = c
  · rw [h]
  · obtain ⟨hc, hl⟩ := isLetter_of_toLower_ne h
    rw [isCased_of_isLetter hc, isCased_of_isLetter hl]

theorem isCaseIgnorable_toLower (c : Char) : isCaseIgnorable c.toLower = isCaseIgnorable c := by
  by_cases h : c.toLower = c
  · rw [h]
  · obtain ⟨hc, hl⟩ := isLetter_of_toLower_ne h
    rw [isCaseIgnorable_of_isLetter hc, isCaseIgnorable_of_isLetter hl]

theorem nextIsCased_map_toLower (s : List Char) :
    nextIsCased (s.map Char.toLower) = nextIsCased s := by
  have hfun : isCaseIgnorable ∘ Char.toLower = isCaseIgnorable := funext isCaseIgnorable_toLower
  unfold nextIsCased
  rw [List.dropWhile_map, hfun]
  cases s.dropWhile isCaseIgnorable with
  | nil => rfl
  | cons c s => exact isCased_toLower c

/-- An ASCII character is put in lower case wherever it stands. -/
theorem lowerAfter_cons_of_lt (h : c.toNat < 128) (before s : List Char) :
    lowerAfter before (c :: s) = c.toLower :: lowerAfter (c :: before) s := by
  have hsigma : c ≠ 'Σ' := by
    rintro rfl
    exact absurd h (by decide)
  have hdotted : c ≠ 'İ' := by
    rintro rfl
    exact absurd h (by decide)
  rw [lowerAfter, if_neg hsigma, if_neg hdotted, if_pos h]
  rfl

/-- A text whose ASCII letters are put in lower case has the same lower-case form. -/
theorem lowerAfter_map_toLower (before s : List Char) :
    lowerAfter (before.map Char.toLower) (s.map Char.toLower) = lowerAfter before s := by
  induction s generalizing before with
  | nil => rfl
  | cons c s ih =>
    have ih := ih (c :: before)
    rw [List.map_cons] at ih ⊢
    by_cases h : c.toNat < 128
    · rw [lowerAfter_cons_of_lt (toLower_lt h), lowerAfter_cons_of_lt h, ih,
        Char.toLower_toLower_eq_toLower]
    · rw [toLower_eq_self h] at ih ⊢
      rw [lowerAfter, lowerAfter, ih, nextIsCased_map_toLower, nextIsCased_map_toLower]

theorem lowercase_foldCase (s : String) : lowercase (Name.foldCase s) = lowercase s := by
  rw [lowercase, lowercase, Name.toList_foldCase]
  exact congrArg String.ofList (lowerAfter_map_toLower [] s.toList)

theorem lowercase_eq_of_foldCase_eq (h : Name.foldCase a = Name.foldCase b) :
    lowercase a = lowercase b := by
  rw [← lowercase_foldCase a, h, lowercase_foldCase]

/-- Whether lower case changes a character as it changes ASCII letters, if at all. -/
def hasPlainCase (c : Char) : Bool :=
  c.toNat < 128 || (c ≠ 'Σ' && c ≠ 'İ' && shiftCase lowerShifts c == c)

theorem lowerAfter_eq_map {s : List Char} (h : ∀ c ∈ s, hasPlainCase c = true) (before : List Char) :
    lowerAfter before s = s.map Char.toLower := by
  induction s generalizing before with
  | nil => rfl
  | cons c s ih =>
    have hrest := ih (fun d hd => h d (List.mem_cons_of_mem c hd)) (c :: before)
    by_cases hlt : c.toNat < 128
    · rw [lowerAfter_cons_of_lt hlt, hrest, List.map_cons]
    · have hc := h c List.mem_cons_self
      simp only [hasPlainCase, hlt, decide_false, Bool.false_or, Bool.and_eq_true, decide_eq_true_eq,
        beq_iff_eq] at hc
      rw [lowerAfter, if_neg hc.1.1, if_neg hc.1.2, if_neg hlt, hc.2, hrest, List.map_cons,
        toLower_eq_self hlt]
      rfl

theorem lowercase_eq_foldCase (h : ∀ c ∈ a.toList, hasPlainCase c = true) :
    lowercase a = Name.foldCase a := by
  rw [lowercase, lowerAfter_eq_map h, Name.foldCase]

end Text

/-- The operator that tells how two values lie to each other. -/
def BinaryOp.ofOrdering : Ordering → BinaryOp
  | .lt => lt
  | .eq => eq
  | .gt => gt

namespace Value

/-- The operators by which values are compared. -/
def comparisons : List BinaryOp := [.eq, .lt, .ltEq, .gt, .gtEq]

/-- An operation on two values evaluates to true. -/
def Holds (op : BinaryOp) (v w : Value) : Prop := binary op v w = .ok (bool true)

/-- Two values have their places in one order: just one of them is less, or they are equal, and the
other operators say no more than that. -/
structure Ranked (v w : Value) : Prop where
  decided : ∀ op ∈ comparisons, ∃ b, binary op v w = .ok (bool b)
  one : ∃! o, Holds (.ofOrdering o) v w
  ltEq : Holds .ltEq v w ↔ Holds .lt v w ∨ Holds .eq v w
  gtEq : Holds .gtEq v w ↔ Holds .gt v w ∨ Holds .eq v w

theorem holds_eq_iff {v w : Value} : Holds .eq v w ↔ v.equal w = true := by
  simp [Holds, binary]

/-- Two values are compared as two members of a linear order are. -/
def ComparedAs {α : Type} [LinearOrder α] (v w : Value) (x y : α) : Prop :=
  compare? v w = some (compare x y)

namespace ComparedAs

variable {α : Type} [LinearOrder α] {x y : α} {v w : Value}

theorem ordered_eq (h : ComparedAs v w x y) (op : BinaryOp) (p : Ordering → Bool) :
    ordered op p v w = .ok (bool (p (compare x y))) := by
  rw [ordered, h]

theorem lt_iff (h : ComparedAs v w x y) : Holds .lt v w ↔ x < y := by
  rw [← compare_lt_iff_lt, ← Ordering.isLT_iff_eq_lt]
  simp [Holds, binary, h.ordered_eq]

theorem gt_iff (h : ComparedAs v w x y) : Holds .gt v w ↔ y < x := by
  rw [← compare_gt_iff_gt, ← Ordering.isGT_iff_eq_gt]
  simp [Holds, binary, h.ordered_eq]

theorem ltEq_iff (h : ComparedAs v w x y) : Holds .ltEq v w ↔ x ≤ y := by
  rw [← compare_le_iff_le, ne_eq, ← Ordering.isLE_iff_ne_gt]
  simp [Holds, binary, h.ordered_eq]

theorem gtEq_iff (h : ComparedAs v w x y) : Holds .gtEq v w ↔ y ≤ x := by
  rw [← compare_ge_iff_ge, ne_eq, ← Ordering.isGE_iff_ne_lt]
  simp [Holds, binary, h.ordered_eq]

theorem decided (h : ComparedAs v w x y) {op : BinaryOp} (hop : op ∈ comparisons) :
    ∃ b, binary op v w = .ok (bool b) := by
  simp only [comparisons, List.mem_cons, List.not_mem_nil, or_false] at hop
  rcases hop with rfl | rfl | rfl | rfl | rfl
  · exact ⟨_, rfl⟩
  all_goals exact ⟨_, h.ordered_eq _ _⟩

theorem holds_ofOrdering_iff (h : ComparedAs v w x y) (heq : x = y ↔ Holds .eq v w) (o : Ordering) :
    Holds (.ofOrdering o) v w ↔ compare x y = o := by
  cases o with
  | lt => rw [compare_lt_iff_lt]; exact h.lt_iff
  | eq => rw [compare_eq_iff_eq]; exact heq.symm
  | gt => rw [compare_gt_iff_gt]; exact h.gt_iff

theorem ranked (h : ComparedAs v w x y) (heq : x = y ↔ Holds .eq v w) : Ranked v w where
  decided _ := h.decided
  one := by simp only [h.holds_ofOrdering_iff heq, existsUnique_eq']
  ltEq := by rw [h.ltEq_iff, h.lt_iff, ← heq, le_iff_lt_or_eq]
  gtEq := by rw [h.gtEq_iff, h.gt_iff, ← heq, le_iff_lt_or_eq, eq_comm]

/-- Two values are ranked if and only if `==` is to them what it is to the order. -/
theorem ranked_iff (h : ComparedAs v w x y) : Ranked v w ↔ (x = y ↔ Holds .eq v w) := by
  refine ⟨fun hr => ⟨fun hxy => ?_, fun heq => ?_⟩, h.ranked⟩
  · obtain ⟨o, ho, -⟩ := hr.one
    cases o with
    | lt => exact absurd hxy (h.lt_iff.mp ho).ne
    | eq => exact ho
    | gt => exact absurd hxy (h.gt_iff.mp ho).ne'
  · rcases lt_trichotomy x y with hlt | hxy | hgt
    · exact absurd (hr.one.unique (h.lt_iff.mpr hlt) heq : Ordering.lt = .eq) nofun
    · exact hxy
    · exact absurd (hr.one.unique (h.gt_iff.mpr hgt) heq : Ordering.gt = .eq) nofun

theorem lt_trans {u : Value} {z : α} (h : ComparedAs v w x y) (h' : ComparedAs w u y z)
    (h'' : ComparedAs v u x z) (hlt : Holds .lt v w) (hlt' : Holds .lt w u) : Holds .lt v u :=
  h''.lt_iff.mpr ((h.lt_iff.mp hlt).trans (h'.lt_iff.mp hlt'))

end ComparedAs

theorem comparedAs_integer (a b : Int64) : ComparedAs (integer a) (integer b) a.toInt b.toInt := by
  rw [ComparedAs, LinearOrder.compare_eq_compareOfLessAndEq]
  simp only [compare?, compareOfLessAndEq, Int64.lt_iff_toInt_lt, Int64.toInt_inj]

theorem comparedAs_string (a b : String) :
    ComparedAs (string a) (string b) (Text.lowercase a) (Text.lowercase b) := by
  rw [ComparedAs, LinearOrder.compare_eq_compareOfLessAndEq]
  rfl

theorem ranked_integer (a b : Int64) : Ranked (integer a) (integer b) := by
  refine (comparedAs_integer a b).ranked ?_
  rw [holds_eq_iff, Int64.toInt_inj]
  simp [equal, same]

theorem holds_eq_string_iff {a b : String} :
    Holds .eq (string a) (string b) ↔ Name.foldCase a = Name.foldCase b := by
  rw [holds_eq_iff, equal, Name.sameFold, beq_iff_eq]

/-- Strings are ranked just if they are equal when their lower-case forms are. -/
theorem ranked_string_iff {a b : String} : Ranked (string a) (string b) ↔
    (Text.lowercase a = Text.lowercase b → Name.foldCase a = Name.foldCase b) := by
  rw [(comparedAs_string a b).ranked_iff, holds_eq_string_iff]
  exact ⟨Iff.mp, fun h => ⟨h, Text.lowercase_eq_of_foldCase_eq⟩⟩

theorem ranked_string_of_plainCase {a b : String} (ha : ∀ c ∈ a.toList, Text.hasPlainCase c = true)
    (hb : ∀ c ∈ b.toList, Text.hasPlainCase c = true) : Ranked (string a) (string b) := by
  rw [ranked_string_iff, Text.lowercase_eq_foldCase ha, Text.lowercase_eq_foldCase hb]
  exact id

/-- Of a letter outside ASCII in either case, neither is less than the other and each is at most the
other, but they are not equal. -/
theorem accents_not_ranked :
    ¬Holds .lt (string "É") (string "é") ∧ ¬Holds .gt (string "É") (string "é") ∧
      Holds .ltEq (string "É") (string "é") ∧ ¬Holds .eq (string "É") (string "é") ∧
        ¬Ranked (string "É") (string "é") := by
  have h := comparedAs_string "É" "é"
  have hsame : Text.lowercase "É" = Text.lowercase "é" := by decide +kernel
  have hne : Name.foldCase "É" ≠ Name.foldCase "é" := by decide +kernel
  rw [h.lt_iff, h.gt_iff, h.ltEq_iff, holds_eq_string_iff, ranked_string_iff, hsame]
  exact ⟨lt_irrefl _, lt_irrefl _, le_refl _, hne, fun hr => hne (hr rfl)⟩

/-- Comparison and equality are one order on integers, and on strings except where strings of one
lower-case form are not equal; in particular on strings that have nothing but ASCII letters in upper
case. Either way `<` is transitive. -/
theorem comparisons_ranked (i j k : Int64) (a b c : String) :
    Ranked (integer i) (integer j) ∧
    (Holds .lt (integer i) (integer j) → Holds .lt (integer j) (integer k) →
      Holds .lt (integer i) (integer k)) ∧
    (Ranked (string a) (string b) ↔
      (Text.lowercase a = Text.lowercase b → Name.foldCase a = Name.foldCase b)) ∧
    ((∀ c ∈ a.toList, Text.hasPlainCase c = true) → (∀ c ∈ b.toList, Text.hasPlainCase c = true) →
      Ranked (string a) (string b)) ∧
    (Holds .lt (string a) (string b) → Holds .lt (string b) (string c) →
      Holds .lt (string a) (string c)) :=
  ⟨ranked_integer i j,
    (comparedAs_integer i j).lt_trans (comparedAs_integer j k) (comparedAs_integer i k),
    ranked_string_iff, ranked_string_of_plainCase,
    (comparedAs_string a b).lt_trans (comparedAs_string b c) (comparedAs_string a c)⟩

/-- Words with letters outside ASCII that have other lower-case forms, and chains of three values. -/
theorem comparisons_ranked_words :
    Holds .lt (integer 1) (integer 2) ∧ Holds .lt (integer 2) (integer 3) ∧
    Holds .lt (integer 1) (integer 3) ∧
    (∀ c ∈ "STRASSE".toList, Text.hasPlainCase c = true) ∧
    (∀ c ∈ "straße".toList, Text.hasPlainCase c = true) ∧
    Ranked (string "STRASSE") (string "straße") ∧
    Holds .lt (string "STRASSE") (string "straße") ∧ Holds .lt (string "straße") (string "Ç") ∧
    Holds .lt (string "STRASSE") (string "Ç") := by
  obtain ⟨-, hnumbers, -, hplain, htrans⟩ := comparisons_ranked 1 2 3 "STRASSE" "straße" "Ç"
  have hupper : ∀ c ∈ "STRASSE".toList, Text.hasPlainCase c = true :=
    List.all_eq_true.mp (by decide +kernel)
  have hlower : ∀ c ∈ "straße".toList, Text.hasPlainCase c = true :=
    List.all_eq_true.mp (by decide +kernel)
  have h₁ : Holds .lt (integer 1) (integer 2) :=
    (comparedAs_integer 1 2).lt_iff.mpr (by decide)
  have h₂ : Holds .lt (integer 2) (integer 3) :=
    (comparedAs_integer 2 3).lt_iff.mpr (by decide)
  have hab : Holds .lt (string "STRASSE") (string "straße") :=
    (comparedAs_string _ _).lt_iff.mpr (by decide +kernel)
  have hbc : Holds .lt (string "straße") (string "Ç") :=
    (comparedAs_string _ _).lt_iff.mpr (by decide +kernel)
  exact ⟨h₁, h₂, hnumbers h₁ h₂, hupper, hlower, hplain hupper hlower, hab, hbc, htrans hab hbc⟩

end Value
end Cascade
