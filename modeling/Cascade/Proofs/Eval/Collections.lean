import Cascade.Proofs.Eval.Comparison
import Cascade.Proofs.Form
import Mathlib.Data.List.Forall2
/-!
Equality and the operators on arrays. On values without floats `==` is an equivalence, as it compares
forms. `in` and `-` look for elements by the same equality, so neither can tell equal values apart, and
what is taken away is just what is no longer in.
-/
namespace Cascade.Value

variable {v w x x' : Value} {a a' b : List Value}

theorem holds_eq_iff_form (hv : v.isFloatFree = true) (hw : w.isFloatFree = true) :
    Holds .eq v w ↔ v.form Name.foldCase = w.form Name.foldCase := by
  rw [holds_eq_iff, equal_iff_form v w hv hw]

theorem holds_eq_refl (hv : v.isFloatFree = true) : Holds .eq v v :=
  (holds_eq_iff_form hv hv).mpr rfl

theorem holds_eq_symm (hv : v.isFloatFree = true) (hw : w.isFloatFree = true)
    (h : Holds .eq v w) : Holds .eq w v :=
  (holds_eq_iff_form hw hv).mpr ((holds_eq_iff_form hv hw).mp h).symm

theorem holds_eq_trans (hv : v.isFloatFree = true) (hw : w.isFloatFree = true)
    (hx : x.isFloatFree = true) (hvw : Holds .eq v w) (hwx : Holds .eq w x) : Holds .eq v x :=
  (holds_eq_iff_form hv hx).mpr
    (((holds_eq_iff_form hv hw).mp hvw).trans ((holds_eq_iff_form hw hx).mp hwx))

/-- Values without floats, at any depth. -/
abbrev FloatFree := {v : Value // v.isFloatFree = true}

theorem holds_eq_equivalence : Equivalence fun v w : FloatFree => Holds .eq v.1 w.1 where
  refl v := holds_eq_refl v.2
  symm {v w} h := holds_eq_symm v.2 w.2 h
  trans {u v w} h h' := holds_eq_trans u.2 v.2 w.2 h h'

theorem isFloatFree_of_mem (ha : (array a).isFloatFree = true) (hv : v ∈ a) :
    v.isFloatFree = true :=
  isKeyedItems_iff.mp ha v hv

/-- Arrays are equal element by element. -/
theorem holds_eq_array_iff : Holds .eq (array a) (array b) ↔ List.Forall₂ (Holds .eq) a b := by
  rw [holds_eq_iff, equal, equalItems_iff]
  simp only [← holds_eq_iff]

/-- Hashes are equal key by key, in whatever order. -/
theorem holds_eq_hash_iff {t u : Table String Value} (ht : (hash t).isFloatFree = true)
    (hu : (hash u).isFloatFree = true) : Holds .eq (hash t) (hash u) ↔
      ∀ key, Option.Rel (Holds .eq) (t.get? key) (u.get? key) := by
  obtain ⟨htkeys, htparts⟩ := isKeyed_hash_iff.mp ht
  obtain ⟨hukeys, huparts⟩ := isKeyed_hash_iff.mp hu
  rw [holds_eq_iff_form ht hu, form_hash_iff htkeys hukeys, Table.agree_iff _ htkeys hukeys]
  refine forall_congr' fun key => ?_
  cases hv : t.get? key with
  | none => cases u.get? key <;> simp
  | some v =>
    cases hw : u.get? key with
    | none => simp
    | some w =>
      have hv := htparts _ (Table.mem_of_get? hv)
      have hw := huparts _ (Table.mem_of_get? hw)
      simpa using (holds_eq_iff_form hv hw).symm

instance : Decidable (Holds .eq v w) := decidable_of_iff _ holds_eq_iff.symm

/-- A value is in an array if an element equals it. -/
theorem binary_in_array (a : List Value) (x : Value) :
    binary .in x (array a) = .ok (bool (∃ item ∈ a, Holds .eq item x)) := by
  change Except.ok (bool (anyEqual a x)) = _
  congr 2
  rw [Bool.eq_iff_iff, anyEqual, List.any_eq_true, decide_eq_true_eq]
  simp only [holds_eq_iff]

theorem holds_in_array_iff : Holds .in x (array a) ↔ ∃ item ∈ a, Holds .eq item x := by
  rw [Holds, binary_in_array, Except.ok.injEq, bool.injEq, decide_eq_true_eq]

/-- What is left of an array are the elements that equal nothing in the other one. -/
theorem binary_sub_array (a b : List Value) : binary .sub (array a) (array b) =
    .ok (array (a.filter fun v => ∀ w ∈ b, ¬Holds .eq v w)) := by
  change Except.ok (array (without a b)) = _
  congr 2
  refine List.filter_congr fun v _ => ?_
  rw [Bool.eq_iff_iff, Bool.not_eq_true', List.any_eq_false, decide_eq_true_eq]
  simp only [holds_eq_iff]

theorem exists_of_mem_forall₂ {R : Value → Value → Prop} (h : List.Forall₂ R a a') (hv : v ∈ a) :
    ∃ w ∈ a', R v w := by
  induction h with
  | nil => exact absurd hv List.not_mem_nil
  | cons hvw _ ih =>
    rcases List.mem_cons.mp hv with rfl | hv
    · exact ⟨_, List.mem_cons_self, hvw⟩
    · obtain ⟨w, hw, hvw⟩ := ih hv
      exact ⟨w, List.mem_cons_of_mem _ hw, hvw⟩

/-- Equal values are in equal arrays. -/
theorem holds_in_of_holds_eq (ha : (array a).isFloatFree = true)
    (ha' : (array a').isFloatFree = true) (hx : x.isFloatFree = true) (hx' : x'.isFloatFree = true)
    (haa' : Holds .eq (array a) (array a')) (hxx' : Holds .eq x x') (h : Holds .in x (array a)) :
    Holds .in x' (array a') := by
  rw [holds_in_array_iff] at h ⊢
  obtain ⟨v, hv, hvx⟩ := h
  obtain ⟨w, hw, hvw⟩ := exists_of_mem_forall₂ (holds_eq_array_iff.mp haa') hv
  have hve := isFloatFree_of_mem ha hv
  have hwe := isFloatFree_of_mem ha' hw
  have hwx : Holds .eq w x := holds_eq_trans hwe hve hx (holds_eq_symm hve hwe hvw) hvx
  exact ⟨w, hw, holds_eq_trans hwe hx hx' hwx hxx'⟩

/-- To put an array behind another one and to take it away again is to take it away. -/
theorem sub_append_self (a : List Value) (hb : (array b).isFloatFree = true) :
    binary .sub (array (a ++ b)) (array b) = binary .sub (array a) (array b) := by
  have hnone : b.filter (fun v => ∀ w ∈ b, ¬Holds .eq v w) = [] := by
    refine List.filter_eq_nil_iff.mpr fun v hv hall => ?_
    exact of_decide_eq_true hall v hv (holds_eq_refl (isFloatFree_of_mem hb hv))
  rw [binary_sub_array, binary_sub_array, List.filter_append, hnone, List.append_nil]

theorem sub_self (ha : (array a).isFloatFree = true) :
    binary .sub (array a) (array a) = .ok (array []) := by
  have h := sub_append_self [] ha
  rw [List.nil_append] at h
  rw [h, binary_sub_array, List.filter_nil]

/-- What is in a difference of arrays. -/
theorem holds_in_filter_iff (ha : (array a).isFloatFree = true) (hb : (array b).isFloatFree = true)
    (hx : x.isFloatFree = true) :
    Holds .in x (array (a.filter fun v => ∀ w ∈ b, ¬Holds .eq v w)) ↔
      Holds .in x (array a) ∧ ¬Holds .in x (array b) := by
  simp only [holds_in_array_iff, List.mem_filter, decide_eq_true_eq]
  constructor
  · rintro ⟨v, ⟨hv, hnone⟩, hvx⟩
    refine ⟨⟨v, hv, hvx⟩, ?_⟩
    rintro ⟨w, hw, hwx⟩
    have hve := isFloatFree_of_mem ha hv
    have hwe := isFloatFree_of_mem hb hw
    exact hnone w hw (holds_eq_trans hve hx hwe hvx (holds_eq_symm hwe hx hwx))
  · rintro ⟨⟨v, hv, hvx⟩, hnot⟩
    refine ⟨v, ⟨hv, fun w hw hvw => ?_⟩, hvx⟩
    have hve := isFloatFree_of_mem ha hv
    have hwe := isFloatFree_of_mem hb hw
    exact hnot ⟨w, hw, holds_eq_trans hwe hve hx (holds_eq_symm hve hwe hvw) hvx⟩

/-- On values without floats `==` is an equivalence, by the text of strings up to the case of ASCII
letters and by the parts of arrays and hashes. `in` and `-` respect it: equal values are in the same
arrays, what is taken away from an array is all that equals an element of the other one, and what is
left holds what the one array holds and the other does not. -/
theorem equality_respected :
    Equivalence (fun v w : FloatFree => Holds .eq v.1 w.1) ∧
    (∀ s t, Holds .eq (string s) (string t) ↔ Name.foldCase s = Name.foldCase t) ∧
    (∀ a b, Holds .eq (array a) (array b) ↔ List.Forall₂ (Holds .eq) a b) ∧
    (∀ t u : Table String Value, (hash t).isFloatFree = true → (hash u).isFloatFree = true →
      (Holds .eq (hash t) (hash u) ↔ ∀ key, Option.Rel (Holds .eq) (t.get? key) (u.get? key))) ∧
    (∀ (a b : List Value) (x : Value),
      binary .in x (array a) = .ok (bool (∃ item ∈ a, Holds .eq item x)) ∧
      binary .add (array a) (array b) = .ok (array (a ++ b)) ∧
      binary .sub (array a) (array b) =
        .ok (array (a.filter fun v => ∀ w ∈ b, ¬Holds .eq v w))) ∧
    ∀ (a b : List Value), (array a).isFloatFree = true → (array b).isFloatFree = true →
      binary .sub (array (a ++ b)) (array b) = binary .sub (array a) (array b) ∧
      binary .sub (array a) (array a) = .ok (array []) ∧
      ∀ x : Value, x.isFloatFree = true →
        (∀ a' x', (array a').isFloatFree = true → x'.isFloatFree = true →
          Holds .eq (array a) (array a') → Holds .eq x x' →
            (Holds .in x (array a) ↔ Holds .in x' (array a'))) ∧
        ∀ d, binary .sub (array a) (array b) = .ok d →
          (Holds .in x d ↔ Holds .in x (array a) ∧ ¬Holds .in x (array b)) := by
  refine ⟨holds_eq_equivalence, fun _ _ => holds_eq_string_iff, fun _ _ => holds_eq_array_iff,
    fun _ _ => holds_eq_hash_iff,
    fun a b x => ⟨binary_in_array a x, rfl, binary_sub_array a b⟩,
    fun a b ha hb => ⟨sub_append_self a hb, sub_self ha, fun x hx => ⟨?_, ?_⟩⟩⟩
  · intro a' x' ha' hx' haa' hxx'
    have haa'' := holds_eq_symm ha ha' haa'
    have hxx'' := holds_eq_symm hx hx' hxx'
    exact ⟨holds_in_of_holds_eq ha ha' hx hx' haa' hxx',
      holds_in_of_holds_eq ha' ha hx' hx haa'' hxx''⟩
  · intro d hd
    rw [binary_sub_array] at hd
    obtain rfl := Except.ok.inj hd
    exact holds_in_filter_iff ha hb hx

/-- Two spellings of one hash, inside arrays. -/
theorem equality_respected_hashes :
    let x := hash [("k", string "b"), ("l", undef)]
    let x' := hash [("l", undef), ("k", string "B")]
    let a := [integer 1, array [x], x']
    let a' := [integer 1, array [x'], x]
    (array a).isFloatFree = true ∧ (array a').isFloatFree = true ∧ x.isFloatFree = true ∧
      x'.isFloatFree = true ∧ Holds .eq (array a) (array a') ∧ Holds .eq x x' ∧
      Holds .in x' (array a') ∧
      binary .sub (array a) (array [x]) = .ok (array [integer 1, array [x]]) ∧
      ¬Holds .in x (array [integer 1, array [x]]) := by
  intro x x' a a'
  have ha : (array a).isFloatFree = true := by decide +kernel
  have ha' : (array a').isFloatFree = true := by decide +kernel
  have hx : x.isFloatFree = true := by decide +kernel
  have hx' : x'.isFloatFree = true := by decide +kernel
  have hb : (array [x]).isFloatFree = true := by decide +kernel
  have haa' : Holds .eq (array a) (array a') := by decide +kernel
  have hxx' : Holds .eq x x' := by decide +kernel
  have hin : Holds .in x (array a) := holds_in_array_iff.mpr ⟨x', by simp [a], by decide +kernel⟩
  obtain ⟨-, -, -, -, -, hlaws⟩ := equality_respected
  obtain ⟨-, -, hin_iff⟩ := hlaws a [x] ha hb
  obtain ⟨hreplaced, hleft⟩ := hin_iff x hx
  have hdifference : binary .sub (array a) (array [x]) = .ok (array [integer 1, array [x]]) := rfl
  refine ⟨ha, ha', hx, hx', haa', hxx', (hreplaced a' x' ha' hx' haa' hxx').mp hin, hdifference,
    fun h => ((hleft _ hdifference).mp h).2 ?_⟩
  exact holds_in_array_iff.mpr ⟨x, List.mem_singleton_self x, by decide +kernel⟩

end Cascade.Value
