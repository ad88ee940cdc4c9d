/-!
Cutting text at separators. All functions work on characters, read from the left and drop
nothing but the separators themselves.
-/
namespace Cascade.Text

/-- What is left of `s` after `lead`, if `s` starts with it. -/
def strip? : (lead s : List Char) → Option (List Char)
  | [], s => some s
  | _ :: _, [] => none
  | a :: lead, b :: s => if a = b then strip? lead s else none

theorem strip?_eq_some {lead s r : List Char} : strip? lead s = some r ↔ s = lead ++ r := by
  induction lead generalizing s with
  | nil => simp [strip?]
  | cons a lead ih =>
    cases s with
    | nil => simp [strip?]
    | cons b s => by_cases h : a = b <;> simp [strip?, h, ih, eq_comm]

theorem length_of_strip? {lead s r : List Char} (h : strip? lead s = some r) :
    s.length = lead.length + r.length := by simp [strip?_eq_some.1 h]

/-- The text before the first `sep` and the text after it, if `sep` occurs. -/
def splitOnce (sep : List Char) : List Char → Option (List Char × List Char)
  | [] => match strip? sep [] with
    | some r => some ([], r)
    | none => none
  | c :: s => match strip? sep (c :: s) with
    | some r => some ([], r)
    | none => (splitOnce sep s).map fun p => (c :: p.1, p.2)

theorem splitOnce_eq {sep s a b : List Char} (h : splitOnce sep s = some (a, b)) :
    s = a ++ sep ++ b := by
  induction s generalizing a b with
  | nil =>
    simp only [splitOnce] at h
    split at h
    · rename_i r hr
      have := strip?_eq_some.1 hr
      simp_all
    · simp at h
  | cons c s ih =>
    simp only [splitOnce] at h
    split at h
    · rename_i r hr
      have := strip?_eq_some.1 hr
      simp_all
    · obtain ⟨⟨p, q⟩, hp, he⟩ := Option.map_eq_some_iff.1 h
      simp only [Prod.mk.injEq] at he
      obtain ⟨rfl, rfl⟩ := he
      simp [ih hp]

/-- Skips `skip` characters, then cuts at `sep`. -/
def splitAfter (sep : List Char) : (skip : Nat) → List Char → List (List Char)
  | _, [] => [[]]
  | skip + 1, _ :: s => splitAfter sep skip s
  | 0, c :: s =>
    if (strip? sep (c :: s)).isSome then [] :: splitAfter sep (sep.length - 1) s
    else match splitAfter sep 0 s with
      | [] => [[c]]
      | piece :: rest => (c :: piece) :: rest

/-- The pieces of `s` between the occurrences of `sep`, of which there is at least one. -/
def splitOn (sep s : List Char) : List (List Char) := splitAfter sep 0 s

/-- The text before the last `sep` and the text after it, if `sep` occurs. -/
def rsplitOnce (sep : List Char) (s : List Char) : Option (List Char × List Char) :=
  (splitOnce sep.reverse s.reverse).map fun p => (p.2.reverse, p.1.reverse)

/-- The pieces of `s` between the characters that satisfy `p`. -/
def splitBy (p : Char → Bool) : List Char → List (List Char)
  | [] => [[]]
  | c :: s =>
    if p c then [] :: splitBy p s
    else match splitBy p s with
      | [] => [[c]]
      | piece :: rest => (c :: piece) :: rest

theorem splitBy_ne_nil (p : Char → Bool) (s : List Char) : splitBy p s ≠ [] := by
  cases s with
  | nil => simp [splitBy]
  | cons c s => simp only [splitBy]; split <;> (try split) <;> simp

/-- Whether `part` occurs anywhere in `s`. -/
def occursIn (part s : List Char) : Bool := (splitOnce part s).isSome

/-- A line without a carriage return at its end. -/
def chomp (l : List Char) : List Char := if l.getLast? = some '\r' then l.dropLast else l

/-- Lines end with a line feed, before which a carriage return is dropped; an unended last line
counts unless it is empty. -/
def lines (s : List Char) : List (List Char) :=
  let pieces := splitBy (· = '\n') s
  let ended := pieces.dropLast.map chomp
  match pieces.getLast? with
  | none | some [] => ended
  | some last => ended ++ [last]

end Cascade.Text
