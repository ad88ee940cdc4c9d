import Cascade.Name
import Cascade.Proofs.Text
import Mathlib
/-!
Names under which things are kept: writing a name in that form again changes nothing. The form is made
of the segments of the name, each in lower case.
-/
namespace Cascade.Name

theorem toLower_eq_colon {c : Char} (h : c.toLower = ':') : c = ':' := by
  cases hc : c.isUpper with
  | true =>
    have hl : c.toLower.isLower = true := by simp [Char.isAlpha, hc]
    rw [h] at hl
    exact absurd hl (by decide)
  | false =>
    rwa [Char.toLower_eq_of_not_isUpper (by simp [hc])] at h

theorem dropColons_of_not_colons {s : List Char} (h : ∀ t, s ≠ ':' :: ':' :: t) :
    dropColons s = s := by
  rw [dropColons]
  exact h

theorem dropColons_suffix (s : List Char) : dropColons s <:+ s := by
  induction s using dropColons.induct with
  | case1 s ih =>
    rw [dropColons]
    exact ih.trans ((List.suffix_cons ':' s).trans (List.suffix_cons ':' _))
  | case2 s h => rw [dropColons_of_not_colons h]

theorem dropColons_dropColons (s : List Char) : dropColons (dropColons s) = dropColons s := by
  induction s using dropColons.induct with
  | case1 s ih => rw [dropColons]; exact ih
  | case2 s h => rw [dropColons_of_not_colons h, dropColons_of_not_colons h]

@[simp] theorem bare_bare (name : String) : bare (bare name) = bare name := by
  simp only [bare, String.toList_ofList, dropColons_dropColons]

theorem length_dropColons_le (s : List Char) : (dropColons s).length ≤ s.length :=
  (dropColons_suffix s).length_le

/-- Lower case brings no `::` to the front of a name that had none there. -/
theorem dropColons_map_toLower (s : List Char) :
    dropColons ((dropColons s).map Char.toLower) = (dropColons s).map Char.toLower := by
  induction s using dropColons.induct with
  | case1 s ih => rw [dropColons]; exact ih
  | case2 s h =>
    rw [dropColons_of_not_colons h]
    refine dropColons_of_not_colons ?_
    intro t ht
    obtain ⟨c, r, rfl, hc, hr⟩ := List.map_eq_cons_iff.mp ht
    obtain ⟨d, r, rfl, hd, -⟩ := List.map_eq_cons_iff.mp hr
    rw [toLower_eq_colon hc, toLower_eq_colon hd] at h
    exact h r rfl

@[simp] theorem normalize_normalize (name : String) :
    normalize (normalize name) = normalize name := by
  simp only [normalize, foldCase, bare, String.toList_ofList]
  rw [dropColons_map_toLower, List.map_map]
  congr 2
  funext c
  exact Char.toLower_toLower_eq_toLower c

theorem foldCase_normalize (name : String) : foldCase (normalize name) = normalize name := by
  simp only [normalize, foldCase, bare, String.toList_ofList, List.map_map]
  congr 2
  funext c
  exact Char.toLower_toLower_eq_toLower c

theorem toList_foldCase (s : String) : (foldCase s).toList = s.toList.map Char.toLower := by
  simp [foldCase]

theorem toList_bare (s : String) : (bare s).toList = dropColons s.toList := by simp [bare]

/-- A name that is kept under `normalize c` has no leading `::`. -/
theorem not_colons_of_foldCase {name c : String} (h : foldCase name = normalize c) (t : List Char) :
    name.toList ≠ ':' :: ':' :: t := by
  intro ht
  have hkept : dropColons (name.toList.map Char.toLower) = name.toList.map Char.toLower := by
    rw [← toList_foldCase, h, normalize, toList_foldCase, toList_bare, dropColons_map_toLower]
  have hcolon : Char.toLower ':' = ':' := by decide
  rw [ht, List.map_cons, List.map_cons, hcolon, dropColons] at hkept
  have hle := length_dropColons_le (t.map Char.toLower)
  rw [hkept] at hle
  simp only [List.length_cons] at hle
  omega

/-- What stands behind `::` can join the colons of a name only if that has nothing else. -/
theorem dropColons_append {s : List Char} (h : ∀ t, s ≠ ':' :: ':' :: t) (hempty : s ≠ [])
    (hcolon : s ≠ [':']) (u : List Char) : dropColons (s ++ u) = s ++ u := by
  refine dropColons_of_not_colons fun t ht => ?_
  rcases s with _ | ⟨a, _ | ⟨b, s⟩⟩
  · exact hempty rfl
  · exact hcolon (by rw [(List.cons.inj ht).1])
  · obtain ⟨rfl, hrest⟩ := List.cons.inj ht
    exact h s (by rw [(List.cons.inj hrest).1])

/-- A name that is written in the form under which it is kept, and that is more than a colon. -/
def Plain (name : String) : Prop := normalize name = name ∧ name ≠ "" ∧ name ≠ ":"

instance (name : String) : Decidable (Plain name) := inferInstanceAs (Decidable (_ ∧ _))

/-- The key of a member of a class is the same under the name of its definition as under the name that
the class is kept under if and only if the former is plain. -/
theorem bare_member_iff {name c member : String} (h : foldCase name = normalize c) :
    bare (name ++ "::" ++ member) = normalize c ++ "::" ++ member ↔ Plain name := by
  have hnot := not_colons_of_foldCase h
  have hbare : normalize name = normalize c := by
    rw [normalize, bare, dropColons_of_not_colons hnot, String.ofList_toList, h]
  rw [Plain, hbare, @eq_comm _ (normalize c) name]
  have hkey : (name ++ "::" ++ member).toList = name.toList ++ ':' :: ':' :: member.toList := by
    simp [String.toList_append]
  have hlength : (normalize c).toList.length = name.toList.length := by
    rw [← h, toList_foldCase, List.length_map]
  rw [← String.toList_inj, toList_bare, hkey]
  by_cases hempty : name = ""
  · subst hempty
    refine ⟨fun heq => ?_, fun hn => absurd rfl hn.2.1⟩
    have hle := length_dropColons_le member.toList
    have heq := congrArg List.length heq
    simp only [String.toList_append, List.length_append, hlength] at heq
    simp [dropColons] at heq
    omega
  · by_cases hcolon : name = ":"
    · subst hcolon
      refine ⟨fun heq => ?_, fun hn => absurd rfl hn.2.2⟩
      have hle := length_dropColons_le (':' :: member.toList)
      have heq := congrArg List.length heq
      simp only [String.toList_append, List.length_append, hlength] at heq
      simp [dropColons] at heq
      simp only [List.length_cons] at hle
      omega
    · have hne : name.toList ≠ [] := fun hl => hempty (String.toList_inj.mp hl)
      have hne' : name.toList ≠ [':'] := fun hl => hcolon (String.toList_inj.mp hl)
      rw [dropColons_append hnot hne hne', ← hkey, String.toList_inj]
      refine ⟨fun heq => ⟨?_, hempty, hcolon⟩, fun hn => by rw [← hn.1]⟩
      have hlist := congrArg String.toList heq
      simp only [String.toList_append, List.append_assoc] at hlist
      exact String.toList_inj.mp (List.append_inj hlist hlength.symm).1

section Segments

theorem toLower_eq_colon_iff {c : Char} : c.toLower = ':' ↔ c = ':' := by
  refine ⟨toLower_eq_colon, ?_⟩
  rintro rfl
  decide

theorem toList_normalize (name : String) :
    (normalize name).toList = (dropColons name.toList).map Char.toLower := by
  rw [normalize, toList_foldCase, toList_bare]

theorem bare_normalize (name : String) : bare (normalize name) = normalize name := by
  rw [← String.toList_inj, toList_bare, toList_normalize, dropColons_map_toLower]

/-- A name is its segments, put together again. -/
theorem intercalate_segments (name : String) : "::".intercalate (segments name) = bare name := by
  have hcolons : "::".toList = [':', ':'] := rfl
  have hpieces : (segments name).map String.toList =
      Text.splitOn [':', ':'] (dropColons name.toList) := by
    rw [segments, List.map_map]
    exact List.map_id'' (fun _ => String.toList_ofList) _
  rw [← String.toList_inj, String.toList_intercalate, hpieces, hcolons, toList_bare]
  exact Text.intercalate_splitOn (List.cons_ne_nil _ _) _

theorem foldCase_foldCase (s : String) : foldCase (foldCase s) = foldCase s := by
  rw [← String.toList_inj, toList_foldCase, toList_foldCase, List.map_map]
  exact List.map_congr_left fun c _ => Char.toLower_toLower_eq_toLower c

/-- The form under which a name is kept has the segments of the name, each in lower case. -/
theorem segments_normalize (name : String) :
    segments (normalize name) = (segments name).map foldCase := by
  have hcolon : ∀ d ∈ [':', ':'], ∀ c : Char, c.toLower = d ↔ c = d := by
    intro d hd c
    obtain rfl : d = ':' := by simpa using hd
    exact toLower_eq_colon_iff
  rw [segments, toList_normalize, dropColons_map_toLower, Text.splitOn, Text.splitAfter_map hcolon,
    segments, Text.splitOn, List.map_map, List.map_map]
  refine List.map_congr_left fun piece _ => ?_
  rw [Function.comp_apply, Function.comp_apply, foldCase, String.toList_ofList]

theorem normalize_eq_intercalate (name : String) :
    normalize name = "::".intercalate ((segments name).map foldCase) := by
  rw [← segments_normalize, intercalate_segments, bare_normalize]

end Segments

end Cascade.Name
