import Cascade.Eval.Operators
import Mathlib.Data.Int.Basic
/-!
Arithmetic on integers. An operation comes to what it comes to in mathematics if 64 bits hold that, and
is refused otherwise; a remainder is also refused if 64 bits do not hold the quotient that leaves it,
which happens for a single pair of integers.
-/
namespace Cascade

/-- The operators that compute numbers from numbers. -/
def BinaryOp.arithmetic : List BinaryOp := [add, sub, mul, div, mod]

namespace Value

/-- What an operation on integers comes to in mathematics, if anything. Division goes toward zero. -/
def ideal? : BinaryOp → Int → Int → Option Int
  | .add, a, b => some (a + b)
  | .sub, a, b => some (a - b)
  | .mul, a, b => some (a * b)
  | .div, a, b => if b = 0 then none else some (a.tdiv b)
  | .mod, a, b => if b = 0 then none else some (a.tmod b)
  | _, _, _ => none

/-- Whether a number is a 64-bit integer. -/
def Representable (n : Int) : Prop := ∃ r : Int64, r.toInt = n

/-- An operation on two integers is exact or refused: it has its mathematical result if that is a
64-bit integer, and otherwise an error that tells why not. -/
structure Exact (op : BinaryOp) (a b : Int64) : Prop where
  value (v : Value) : binary op (integer a) (integer b) = .ok v ↔
    ∃ r : Int64, ideal? op a.toInt b.toInt = some r.toInt ∧ v = integer r
  divisionByZero : binary op (integer a) (integer b) = .error .divisionByZero ↔
    (op = .div ∨ op = .mod) ∧ b = 0
  overflow : binary op (integer a) (integer b) = .error (.overflow op.symbol) ↔
    ∃ n, ideal? op a.toInt b.toInt = some n ∧ ¬Representable n

variable {a b : Int64} {n : Int} {symbol : String} {v : Value}

theorem representable_iff :
    Representable n ↔ -0x8000000000000000 ≤ n ∧ n < 0x8000000000000000 := by
  constructor
  · rintro ⟨r, rfl⟩
    exact ⟨r.le_toInt, r.toInt_lt⟩
  · rintro ⟨hmin, hmax⟩
    exact ⟨Int64.ofInt n, Int64.toInt_ofInt_of_le hmin hmax⟩

theorem representable_toInt (a : Int64) : Representable a.toInt := ⟨a, rfl⟩

theorem fits_iff : fits n = true ↔ Representable n := by
  rw [representable_iff]
  simp [fits]

theorem checked_toInt (symbol : String) (r : Int64) : checked symbol r.toInt = .ok (integer r) := by
  rw [checked, if_pos (fits_iff.mpr (representable_toInt r)), Int64.ofInt_toInt]

theorem checked_of_not_representable (symbol : String) (h : ¬Representable n) :
    checked symbol n = .error (.overflow symbol) :=
  if_neg fun hf => h (fits_iff.mp hf)

/-- A checked number is itself if 64 bits hold it, and an overflow if they do not. -/
theorem checked_eq_ok_iff : checked symbol n = .ok v ↔ ∃ r : Int64, r.toInt = n ∧ v = integer r := by
  constructor
  · intro h
    by_cases hn : Representable n
    · obtain ⟨r, rfl⟩ := hn
      rw [checked_toInt] at h
      exact ⟨r, rfl, (Except.ok.inj h).symm⟩
    · rw [checked_of_not_representable symbol hn] at h
      exact absurd h nofun
  · rintro ⟨r, rfl, rfl⟩
    exact checked_toInt symbol r

theorem checked_eq_error_iff {e : EvalError} :
    checked symbol n = .error e ↔ ¬Representable n ∧ e = .overflow symbol := by
  constructor
  · intro h
    by_cases hn : Representable n
    · obtain ⟨r, rfl⟩ := hn
      rw [checked_toInt] at h
      exact absurd h nofun
    · rw [checked_of_not_representable symbol hn] at h
      exact ⟨hn, (Except.error.inj h).symm⟩
  · rintro ⟨hn, rfl⟩
    exact checked_of_not_representable symbol hn

theorem toInt_eq_zero_iff : b.toInt = 0 ↔ b = 0 := by
  rw [← Int64.toInt_inj]
  rfl

/-- A quotient is no greater than the dividend, so it leaves the range only by a change of sign. -/
theorem representable_tdiv_iff (hb : b ≠ 0) :
    Representable (a.toInt.tdiv b.toInt) ↔ ¬(a = Int64.minValue ∧ b = -1) := by
  have hmin := a.le_toInt
  have hmax := a.toInt_lt
  have hb0 : b.toInt ≠ 0 := fun h => hb (toInt_eq_zero_iff.mp h)
  have hcorner : (a = Int64.minValue ∧ b = -1) ↔ a.toInt = -2 ^ 63 ∧ b.toInt = -1 := by
    rw [← Int64.toInt_inj, ← Int64.toInt_inj]
    rfl
  rw [representable_iff, hcorner]
  by_cases hunit : b.toInt.natAbs = 1
  · rcases Int.natAbs_eq b.toInt with h | h
    · rw [h, hunit, Int.natCast_one, Int.tdiv_one]
      omega
    · rw [h, hunit, Int.natCast_one, Int.tdiv_neg, Int.tdiv_one]
      omega
  · have hhalf : (a.toInt.tdiv b.toInt).natAbs ≤ a.toInt.natAbs / 2 := by
      rw [Int.natAbs_tdiv]
      exact Nat.div_le_div_left (by omega) (by decide)
    omega

/-- A remainder is smaller than the divisor. -/
theorem representable_tmod (hb : b ≠ 0) : Representable (a.toInt.tmod b.toInt) := by
  have hmin := b.le_toInt
  have hmax := b.toInt_lt
  have hb0 : b.toInt ≠ 0 := fun h => hb (toInt_eq_zero_iff.mp h)
  have hsize := Int.natAbs_tmod a.toInt b.toInt
  have hlt : a.toInt.natAbs % b.toInt.natAbs < b.toInt.natAbs := Nat.mod_lt _ (by omega)
  rw [representable_iff]
  omega

/-- A quotient times its divisor is no greater than the dividend, and the remainder is not either. -/
theorem representable_tdiv_mul (a b : Int64) :
    Representable (a.toInt.tdiv b.toInt * b.toInt) := by
  have hmin := a.le_toInt
  have hmax := a.toInt_lt
  have hsum := Int.tdiv_mul_add_tmod a.toInt b.toInt
  have hproduct : (a.toInt.tdiv b.toInt * b.toInt).natAbs ≤ a.toInt.natAbs := by
    rw [Int.natAbs_mul, Int.natAbs_tdiv]
    exact Nat.div_mul_le_self _ _
  have hrest : (a.toInt.tmod b.toInt).natAbs ≤ a.toInt.natAbs := by
    rw [Int.natAbs_tmod]
    exact Nat.mod_le _ _
  rw [representable_iff]
  omega

/-- An operation that checks its mathematical result is exact. -/
theorem exact_of_checked {op : BinaryOp} (hdefined : ¬((op = .div ∨ op = .mod) ∧ b = 0))
    (hideal : ideal? op a.toInt b.toInt = some n)
    (hrun : binary op (integer a) (integer b) = checked op.symbol n) : Exact op a b where
  value v := by
    rw [hrun, checked_eq_ok_iff, hideal]
    exact exists_congr fun r => and_congr_left' (by rw [Option.some_inj, eq_comm])
  divisionByZero := by
    rw [hrun, checked_eq_error_iff]
    exact ⟨fun h => absurd h.2 nofun, fun h => absurd h hdefined⟩
  overflow := by
    rw [hrun, checked_eq_error_iff, hideal]
    exact ⟨fun h => ⟨n, rfl, h.1⟩, fun ⟨_, he, hn⟩ => ⟨Option.some.inj he ▸ hn, rfl⟩⟩

theorem exact_zero {op : BinaryOp} (hop : op = .div ∨ op = .mod) (a : Int64) : Exact op a 0 := by
  have hrun : binary op (integer a) (integer 0) = .error .divisionByZero := by
    rcases hop with rfl | rfl <;> rfl
  have hideal : ideal? op a.toInt (Int64.toInt 0) = none := by
    rcases hop with rfl | rfl <;> rfl
  refine ⟨fun v => ?_, ?_, ?_⟩
  · rw [hrun, hideal]
    exact ⟨fun h => absurd h nofun, fun ⟨_, h, _⟩ => absurd h nofun⟩
  · rw [hrun]
    exact ⟨fun _ => ⟨hop, rfl⟩, fun _ => rfl⟩
  · rw [hrun, hideal]
    exact ⟨fun h => absurd h nofun, fun ⟨_, h, _⟩ => absurd h nofun⟩

theorem binary_div (hb : b ≠ 0) :
    binary .div (integer a) (integer b) = checked "/" (a.toInt.tdiv b.toInt) := if_neg hb

/-- A remainder is refused along with its quotient. -/
theorem binary_mod (hb : b ≠ 0) : binary .mod (integer a) (integer b) =
    if fits (a.toInt.tdiv b.toInt) then checked "%" (a.toInt.tmod b.toInt)
    else .error (.overflow "%") := if_neg hb

theorem exact_div (a b : Int64) : Exact .div a b := by
  by_cases hb : b = 0
  · subst hb
    exact exact_zero (.inl rfl) a
  · exact exact_of_checked (fun h => hb h.2) (if_neg (mt toInt_eq_zero_iff.mp hb)) (binary_div hb)

theorem exact_mod_iff : Exact .mod a b ↔ ¬(a = Int64.minValue ∧ b = -1) := by
  by_cases hb : b = 0
  · subst hb
    exact ⟨fun _ h => absurd h.2 (by decide), fun _ => exact_zero (.inr rfl) a⟩
  · have hideal : ideal? .mod a.toInt b.toInt = some (a.toInt.tmod b.toInt) :=
      if_neg (mt toInt_eq_zero_iff.mp hb)
    rw [← representable_tdiv_iff hb]
    constructor
    · intro h
      by_contra hq
      have hrun : binary .mod (integer a) (integer b) = .error (.overflow "%") := by
        rw [binary_mod hb, if_neg (mt fits_iff.mp hq)]
      obtain ⟨n, hn, hno⟩ := h.overflow.mp hrun
      rw [hideal, Option.some_inj] at hn
      exact hno (hn ▸ representable_tmod hb)
    · intro hq
      refine exact_of_checked (fun h => hb h.2) hideal ?_
      rw [binary_mod hb, if_pos (fits_iff.mpr hq)]
      rfl

/-- Every operation is exact or refused, but for one remainder, which is refused although it is zero. -/
theorem exact_iff {op : BinaryOp} (hop : op ∈ BinaryOp.arithmetic) :
    Exact op a b ↔ ¬(op = .mod ∧ a = Int64.minValue ∧ b = -1) := by
  simp only [BinaryOp.arithmetic, List.mem_cons, List.not_mem_nil, or_false] at hop
  rcases hop with rfl | rfl | rfl | rfl | rfl
  iterate 3 exact iff_of_true (exact_of_checked (fun h => absurd h.1 nofun) rfl rfl) nofun
  · exact iff_of_true (exact_div a b) nofun
  · rw [exact_mod_iff, and_iff_right rfl]

theorem binary_mod_least :
    binary .mod (integer Int64.minValue) (integer (-1)) = .error (.overflow "%") := rfl

/-- The least integer leaves nothing when it is divided by -1, but the quotient is too great. -/
theorem remainder_refused :
    binary .mod (integer Int64.minValue) (integer (-1)) = .error (.overflow "%") ∧
      ideal? .mod Int64.minValue.toInt (Int64.toInt (-1)) = some 0 ∧ Representable 0 ∧
        ¬Exact .mod Int64.minValue (-1) :=
  ⟨binary_mod_least, by decide, ⟨0, rfl⟩, fun h => exact_mod_iff.mp h ⟨rfl, rfl⟩⟩

/-- The quotient and the remainder of a division make up the dividend again. -/
theorem divided_of_representable (hb : b ≠ 0) (hq : Representable (a.toInt.tdiv b.toInt)) :
    ∃ q r p, binary .div (integer a) (integer b) = .ok q ∧
      binary .mod (integer a) (integer b) = .ok r ∧ binary .mul q (integer b) = .ok p ∧
        binary .add p r = .ok (integer a) := by
  have hdiv := binary_div (a := a) hb
  have hmod := binary_mod (a := a) hb
  rw [if_pos (fits_iff.mpr hq)] at hmod
  have hsum := Int.tdiv_mul_add_tmod a.toInt b.toInt
  obtain ⟨p, hp⟩ := representable_tdiv_mul a b
  obtain ⟨r, hr⟩ := representable_tmod (a := a) hb
  obtain ⟨q, hq⟩ := hq
  rw [← hq, checked_toInt] at hdiv
  rw [← hr, checked_toInt] at hmod
  rw [← hq] at hp
  refine ⟨integer q, integer r, integer p, hdiv, hmod, ?_, ?_⟩
  · change checked "*" (q.toInt * b.toInt) = _
    rw [← hp, checked_toInt]
  · change checked "+" (p.toInt + r.toInt) = _
    rw [hp, hr, hq, hsum, checked_toInt]

/-- Arithmetic on integers is exact or refused; only the remainder of the least integer by -1 is refused
though it is zero. A division that is carried out can be undone. -/
theorem integers_exact (a b : Int64) :
    (∀ op ∈ BinaryOp.arithmetic,
      (Exact op a b ↔ ¬(op = .mod ∧ a = Int64.minValue ∧ b = -1))) ∧
    binary .mod (integer Int64.minValue) (integer (-1)) = .error (.overflow "%") ∧
    (∀ v, unary .neg (integer a) = .ok v ↔ ∃ r : Int64, r.toInt = -a.toInt ∧ v = integer r) ∧
    (unary .neg (integer a) = .error (.overflow "-") ↔ ¬Representable (-a.toInt)) ∧
    (b ≠ 0 → Representable (a.toInt.tdiv b.toInt) →
      ∃ q r p, binary .div (integer a) (integer b) = .ok q ∧
        binary .mod (integer a) (integer b) = .ok r ∧ binary .mul q (integer b) = .ok p ∧
          binary .add p r = .ok (integer a)) := by
  refine ⟨fun op hop => exact_iff hop, binary_mod_least, fun v => checked_eq_ok_iff, ?_,
    fun hb hq => divided_of_representable hb hq⟩
  exact checked_eq_error_iff.trans (and_iff_left rfl)

/-- The least integer divided by another. -/
theorem integers_exact_least : Exact .mod Int64.minValue (-3) ∧
    ∃ q r p, binary .div (integer Int64.minValue) (integer (-3)) = .ok q ∧
      binary .mod (integer Int64.minValue) (integer (-3)) = .ok r ∧
        binary .mul q (integer (-3)) = .ok p ∧ binary .add p r = .ok (integer Int64.minValue) := by
  obtain ⟨hexact, -, -, -, hdivided⟩ := integers_exact Int64.minValue (-3)
  exact ⟨(hexact .mod (by decide)).mpr (by decide),
    hdivided (by decide) ⟨3074457345618258602, by decide⟩⟩

end Value
end Cascade
