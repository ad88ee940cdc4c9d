/-!
Blank characters (those with Unicode's `White_Space` property), and what is done with them.
-/
namespace Cascade.Text

def isBlank (c : Char) : Bool :=
  let n := c.toNat
  (0x9 ≤ n && n ≤ 0xd) || n == 0x20 || n == 0x85 || n == 0xa0 || n == 0x1680 ||
    (0x2000 ≤ n && n ≤ 0x200a) || n == 0x2028 || n == 0x2029 || n == 0x202f || n == 0x205f ||
    n == 0x3000

theorem isBlank_of_isWhitespace {c : Char} (h : c.isWhitespace) : isBlank c := by
  simp only [Char.isWhitespace, Bool.or_eq_true, decide_eq_true_eq] at h
  rcases h with ((rfl | rfl) | rfl) | rfl <;> decide

def trimStart (s : List Char) : List Char := s.dropWhile isBlank

def trimEnd (s : List Char) : List Char := (s.reverse.dropWhile isBlank).reverse

def trim (s : List Char) : List Char := trimEnd (trimStart s)

def trimText (s : String) : String := String.ofList (trim s.toList)

/-- The words of a line: the longest runs without a blank. -/
def words : List Char → List (List Char)
  | [] => []
  | c :: s =>
    if isBlank c then words s
    else match s with
      | [] => [[c]]
      | d :: _ =>
        if isBlank d then [c] :: words s
        else match words s with
          | [] => [[c]]
          | w :: ws => (c :: w) :: ws

/-- A word is never empty and holds no blank. -/
theorem mem_words {s w : List Char} (h : w ∈ words s) : w ≠ [] ∧ ∀ c ∈ w, isBlank c = false := by
  fun_induction words s generalizing w with
  | case1 => simp at h
  | case2 c s hc ih => exact ih h
  | case3 c hc => simp_all
  | case4 c hc d s hd ih =>
    rcases List.mem_cons.1 h with rfl | h
    · simp_all
    · exact ih h
  | case5 c hc d s hd hw ih => simp_all
  | case6 c hc d s hd u us hw ih =>
    simp only [hw] at h ih
    rcases List.mem_cons.1 h with rfl | h
    · have hu := ih List.mem_cons_self
      simp_all
    · exact ih (List.mem_cons_of_mem _ h)

end Cascade.Text
