import Cascade.Text.Blank
import Cascade.Text.Split
/-!
Text cut at characters and at longer separators. A text of lines that each have their end gives those
lines back, but for a carriage return before a line feed, and pieces that are put together again give
the text.
-/
namespace Cascade.Text

variable {l s : List Char} {ls : List (List Char)}

theorem splitBy_eq_splitOnP (p : Char → Bool) (s : List Char) : splitBy p s = s.splitOnP p := by
  induction s with
  | nil => rw [splitBy, List.splitOnP_nil]
  | cons c s ih =>
    rw [splitBy, List.splitOnP_cons_eq_if_modifyHead, ih]
    by_cases hc : p c = true
    · rw [if_pos hc, if_pos hc]
    · rw [if_neg hc, if_neg hc]
      cases h : s.splitOnP p with
      | nil => exact absurd h (List.splitOnP_ne_nil p s)
      | cons piece rest => rfl

theorem lines_eq (s : List Char) : lines s =
    (s.splitOnP (· = '\n')).dropLast.map chomp ++
      ((s.splitOnP (· = '\n')).getLast?.filter (· ≠ [])).toList := by
  unfold lines
  simp only [splitBy_eq_splitOnP]
  split
  next h => simp [h]
  next h => simp [h]
  next last hne h =>
    have hl : last ≠ [] := fun he => hne he
    simp [h, hl, Option.filter]

theorem splitOnP_singleton {d : Char} (h : d ∉ l) : l.splitOnP (· = d) = [l] :=
  List.splitOnP_eq_singleton fun _ hc => decide_eq_false fun he => h (he ▸ hc)

/-- What stands before the first separator is the first piece. -/
theorem splitOnP_append_cons {d : Char} (h : d ∉ l) (s : List Char) :
    (l ++ d :: s).splitOnP (· = d) = l :: s.splitOnP (· = d) := by
  rw [List.splitOnP_append_cons _ _ (by simp), splitOnP_singleton h, List.singleton_append]

theorem splitBy_singleton {d : Char} (h : d ∉ l) : splitBy (· = d) l = [l] := by
  rw [splitBy_eq_splitOnP, splitOnP_singleton h]

theorem splitBy_append_cons {d : Char} (h : d ∉ l) (s : List Char) :
    splitBy (· = d) (l ++ d :: s) = l :: splitBy (· = d) s := by
  rw [splitBy_eq_splitOnP, splitBy_eq_splitOnP, splitOnP_append_cons h]

theorem mem_of_mem_splitBy {p : Char → Bool} {c : Char} (h : l ∈ splitBy p s) (hc : c ∈ l) :
    c ∈ s := by
  induction s generalizing l with
  | nil =>
    obtain rfl : l = [] := by simpa [splitBy] using h
    exact hc
  | cons d s ih =>
    rw [splitBy] at h
    split at h
    · rcases List.mem_cons.mp h with rfl | h
      · exact absurd hc List.not_mem_nil
      · exact List.mem_cons_of_mem d (ih h hc)
    · split at h
      next hnil => exact absurd hnil (splitBy_ne_nil p s)
      next piece rest hs =>
        rcases List.mem_cons.mp h with rfl | h
        · rcases List.mem_cons.mp hc with rfl | hc
          · exact List.mem_cons_self
          · exact List.mem_cons_of_mem d (ih (hs ▸ List.mem_cons_self) hc)
        · exact List.mem_cons_of_mem d (ih (hs ▸ List.mem_cons_of_mem piece h) hc)

/-- The first line of a text that goes on after it. -/
theorem lines_append (h : '\n' ∉ l) (s : List Char) : lines (l ++ '\n' :: s) = chomp l :: lines s := by
  have hsplit := splitOnP_append_cons h s
  have hne := List.splitOnP_ne_nil (· = '\n') s
  rw [lines_eq, lines_eq, hsplit, List.dropLast_cons_of_ne_nil hne, List.getLast?_cons_of_ne_nil hne]
  rfl

theorem lines_flatMap (h : ∀ l ∈ ls, '\n' ∉ l) (s : List Char) :
    lines (ls.flatMap (· ++ ['\n']) ++ s) = ls.map chomp ++ lines s := by
  induction ls with
  | nil => rfl
  | cons l ls ih =>
    rw [List.flatMap_cons, List.map_cons, List.append_assoc, List.append_assoc, List.singleton_append,
      lines_append (h l List.mem_cons_self), ih fun l' hl' => h l' (List.mem_cons_of_mem l hl')]
    rfl

theorem notMem_of_mem_splitOnP {d : Char} (h : l ∈ s.splitOnP (· = d)) : d ∉ l := by
  induction s generalizing l with
  | nil =>
    obtain rfl : l = [] := by simpa using h
    exact List.not_mem_nil
  | cons c s ih =>
    rw [List.splitOnP_cons_eq_if_modifyHead] at h
    split at h
    · rcases List.mem_cons.mp h with rfl | h
      · exact List.not_mem_nil
      · exact ih h
    next hc =>
      obtain ⟨first, rest, hs⟩ := List.exists_cons_of_ne_nil (List.splitOnP_ne_nil (· = d) s)
      rw [hs, List.modifyHead_cons] at h
      rcases List.mem_cons.mp h with rfl | h
      · have hne : d ≠ c := fun he => hc (by simp [← he])
        simp only [List.mem_cons, not_or]
        exact ⟨hne, ih (hs ▸ List.mem_cons_self)⟩
      · exact ih (hs ▸ List.mem_cons_of_mem first h)

theorem mem_of_mem_chomp {c : Char} (h : c ∈ chomp l) : c ∈ l := by
  unfold chomp at h
  split at h
  · exact List.dropLast_subset _ h
  · exact h

theorem notMem_of_mem_lines (h : l ∈ lines s) : '\n' ∉ l := by
  rw [lines_eq, List.mem_append, List.mem_map, Option.mem_toList, Option.filter_eq_some_iff] at h
  rcases h with ⟨l', hl', rfl⟩ | ⟨hl, -⟩
  · exact fun hm => notMem_of_mem_splitOnP (List.dropLast_subset _ hl') (mem_of_mem_chomp hm)
  · exact notMem_of_mem_splitOnP (List.mem_of_getLast? hl)

theorem flatMap_injective {ls' : List (List Char)} (h : ∀ l ∈ ls, '\n' ∉ l)
    (h' : ∀ l ∈ ls', '\n' ∉ l) (he : ls.flatMap (· ++ ['\n']) = ls'.flatMap (· ++ ['\n'])) :
    ls = ls' := by
  have hsplit : ∀ ls : List (List Char), (∀ l ∈ ls, '\n' ∉ l) →
      (ls.flatMap (· ++ ['\n'])).splitOnP (· = '\n') = ls ++ [[]] := by
    intro ls
    induction ls with
    | nil => exact fun _ => rfl
    | cons l ls ih =>
      intro h
      rw [List.flatMap_cons, List.append_assoc, List.singleton_append,
        splitOnP_append_cons (h l List.mem_cons_self),
        ih fun l' hl' => h l' (List.mem_cons_of_mem l hl'), List.cons_append]
  have h₂ := hsplit ls' h'
  rw [← he, hsplit ls h] at h₂
  exact List.append_cancel_right h₂

theorem trimStart_concat {c : Char} (h : isBlank c = true) (l : List Char) :
    trimStart (l ++ [c]) = trimStart l ++ [c] ∨ trimStart (l ++ [c]) = [] ∧ trimStart l = [] := by
  unfold trimStart
  rw [List.dropWhile_append]
  cases hl : l.dropWhile isBlank with
  | nil => exact .inr ⟨by simp [h], rfl⟩
  | cons d s => exact .inl rfl

theorem trim_concat {c : Char} (h : isBlank c = true) (l : List Char) : trim (l ++ [c]) = trim l := by
  rcases trimStart_concat h l with hl | ⟨hl, hl'⟩
  · simp [trim, trimEnd, hl, h]
  · rw [trim, trim, hl, hl']

theorem rsplitOnce_eq {sep s a b : List Char} (h : rsplitOnce sep s = some (a, b)) :
    s = a ++ sep ++ b := by
  obtain ⟨⟨b', a'⟩, hs, he⟩ := Option.map_eq_some_iff.mp h
  obtain ⟨rfl, rfl⟩ := Prod.mk.inj he
  rw [← List.reverse_inj, splitOnce_eq hs]
  simp

theorem splitOnce_ne_none (a sep b : List Char) : splitOnce sep (a ++ sep ++ b) ≠ none := by
  induction a with
  | nil =>
    have hlead : strip? sep (sep ++ b) = some b := strip?_eq_some.mpr rfl
    rw [List.nil_append]
    cases hs : sep ++ b with
    | nil =>
      rw [hs] at hlead
      simp [splitOnce, hlead]
    | cons c s =>
      rw [hs] at hlead
      simp [splitOnce, hlead]
  | cons c a ih =>
    rw [List.append_assoc] at ih
    rw [List.append_assoc, List.cons_append, splitOnce]
    split
    · exact Option.some_ne_none _
    · rw [ne_eq, Option.map_eq_none_iff]
      exact ih

section Pieces

variable {sep lead : List Char}

theorem splitAfter_ne_nil (sep : List Char) (skip : Nat) (s : List Char) :
    splitAfter sep skip s ≠ [] := by
  induction s generalizing skip with
  | nil => cases skip <;> exact List.cons_ne_nil _ _
  | cons c s ih =>
    cases skip with
    | succ skip => exact ih skip
    | zero =>
      rw [splitAfter]
      split
      · exact List.cons_ne_nil _ _
      · split <;> exact List.cons_ne_nil _ _

/-- Pieces that are put together again give the text, as far as it has not been skipped. -/
theorem intercalate_splitAfter (hsep : sep ≠ []) (skip : Nat) (s : List Char) :
    sep.intercalate (splitAfter sep skip s) = s.drop skip := by
  induction s generalizing skip with
  | nil => cases skip <;> rfl
  | cons c s ih =>
    cases skip with
    | succ skip => exact ih skip
    | zero =>
      rw [splitAfter]
      split
      next hsome =>
        obtain ⟨rest, hrest⟩ := Option.isSome_iff_exists.mp hsome
        obtain ⟨d, ds, rfl⟩ := List.exists_cons_of_ne_nil hsep
        obtain ⟨rfl, hs⟩ := List.cons.inj (strip?_eq_some.mp hrest)
        obtain ⟨piece, pieces, hpieces⟩ :=
          List.exists_cons_of_ne_nil (splitAfter_ne_nil (c :: ds) ((c :: ds).length - 1) s)
        have hdrop := ih ((c :: ds).length - 1)
        rw [hpieces] at hdrop ⊢
        rw [List.intercalate_cons_cons, hdrop, hs]
        simp
      next =>
        have hdrop := ih 0
        split
        next hnil => exact absurd hnil (splitAfter_ne_nil sep 0 s)
        next piece rest hpieces =>
          rw [hpieces] at hdrop
          cases rest with
          | nil => simpa using hdrop
          | cons next rest =>
            rw [List.intercalate_cons_cons] at hdrop ⊢
            simpa using hdrop

theorem intercalate_splitOn (hsep : sep ≠ []) (s : List Char) :
    sep.intercalate (splitOn sep s) = s := intercalate_splitAfter hsep 0 s

/-- A change of single characters that leaves those of the separator alone, and makes none of them,
leaves the cuts where they are. -/
theorem strip?_map {f : Char → Char} (hf : ∀ d ∈ lead, ∀ c, f c = d ↔ c = d) (s : List Char) :
    strip? lead (s.map f) = (strip? lead s).map (List.map f) := by
  induction lead generalizing s with
  | nil => rfl
  | cons d lead ih =>
    cases s with
    | nil => rfl
    | cons c s =>
      have hc : d = f c ↔ d = c := by
        rw [eq_comm, hf d List.mem_cons_self, eq_comm]
      rw [List.map_cons, strip?, strip?]
      simp only [hc]
      split
      · exact ih (fun e he => hf e (List.mem_cons_of_mem _ he)) s
      · rfl

theorem splitAfter_map {f : Char → Char} (hf : ∀ d ∈ sep, ∀ c, f c = d ↔ c = d) (skip : Nat)
    (s : List Char) : splitAfter sep skip (s.map f) = (splitAfter sep skip s).map (List.map f) := by
  induction s generalizing skip with
  | nil => cases skip <;> rfl
  | cons c s ih =>
    cases skip with
    | succ skip => exact ih skip
    | zero =>
      have hstrip := strip?_map hf (c :: s)
      rw [List.map_cons] at hstrip
      rw [List.map_cons, splitAfter, splitAfter, hstrip, Option.isSome_map, ih, ih]
      split
      · rfl
      · cases splitAfter sep 0 s <;> rfl

end Pieces

end Cascade.Text
