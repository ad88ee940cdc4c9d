import Cascade.Text.CaseTable
/-!
Lower case and upper case of text in the sense of Unicode's default mappings.
-/
namespace Cascade.Text

def shiftCase (table : List CaseShift) (c : Char) : Char :=
  match table.findSome? (·.shifted? c.toNat) with
  | some n => Char.ofNat n
  | none => c

def isCased (c : Char) : Bool := inRanges casedRanges c

def isCaseIgnorable (c : Char) : Bool := inRanges caseIgnorableRanges c

/-- Whether the nearest character that is not case-ignorable is a letter with case. -/
def nextIsCased (s : List Char) : Bool :=
  match s.dropWhile isCaseIgnorable with
  | c :: _ => isCased c
  | [] => false

/-- A sigma that ends a word has a lower case of its own; `before` is the text read so far, in
reverse. -/
def lowerAfter (before : List Char) : List Char → List Char
  | [] => []
  | c :: s =>
    let low :=
      if c = 'Σ' then if nextIsCased before && !nextIsCased s then ['ς'] else ['σ']
      else if c = 'İ' then ['i', '\u0307']
      else if c.toNat < 128 then [c.toLower]
      else [shiftCase lowerShifts c]
    low ++ lowerAfter (c :: before) s

def lowercase (s : String) : String := String.ofList (lowerAfter [] s.toList)

def uppercaseChar (c : Char) : List Char :=
  if c.toNat < 128 then [c.toUpper]
  else match upperExpansions.lookup c.toNat with
    | some cs => cs.map Char.ofNat
    | none => [shiftCase upperShifts c]

/-- The text with its first character in upper case. -/
def capitalize : List Char → List Char
  | [] => []
  | c :: s => uppercaseChar c ++ s

end Cascade.Text
