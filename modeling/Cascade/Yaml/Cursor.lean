/-!
A place in a YAML text. Columns and lines decide what a token means, so a cursor keeps both. A line
ends with a line feed, a carriage return, the two together, or one of three Unicode line ends, of
which only U+2028 and U+2029 survive in the text of a scalar.
-/
namespace Cascade.Yaml

structure Cursor where
  rest : List Char
  /-- How many bytes of the text lie before this place. -/
  index : Nat
  line : Nat
  column : Nat

def isBreak (c : Char) : Bool :=
  c = '\n' || c = '\r' || c.toNat = 0x85 || c.toNat = 0x2028 || c.toNat = 0x2029

/-- Blanks inside a line. -/
def isGap (c : Char) : Bool := c = ' ' || c = '\t'

def isWord (c : Char) : Bool := c.isAlphanum || c = '_' || c = '-'

/-- Whether the text ends here or goes on with a gap or a line end. -/
def isOpen : List Char → Bool
  | [] => true
  | c :: _ => isGap c || isBreak c

namespace Cursor

def start (text : List Char) : Cursor := ⟨text, 0, 0, 0⟩

def peek (c : Cursor) : Option Char := c.rest.head?

def looksAt (c : Cursor) (x : Char) : Bool := c.rest.head? == some x

def atGap (c : Cursor) : Bool := c.peek.any isGap

def atBreak (c : Cursor) : Bool := c.peek.any isBreak

def atEnd (c : Cursor) : Bool := c.rest.isEmpty

/-- Whether the character `n` places on is a gap, a line end or missing. -/
def opensAt (c : Cursor) (n : Nat) : Bool := isOpen (c.rest.drop n)

/-- How many bytes the next `n` characters take. -/
def width (c : Cursor) (n : Nat) : Nat := (c.rest.take n).foldl (fun total x => total + x.utf8Size) 0

/-- Steps over `n` characters of one line. -/
def skip (c : Cursor) (n : Nat) : Cursor :=
  ⟨c.rest.drop n, c.index + c.width n, c.line, c.column + n⟩

def newLine (c : Cursor) (n : Nat) : Cursor := ⟨c.rest.drop n, c.index + c.width n, c.line + 1, 0⟩

/-- Steps over a line end and gives what it is worth in a scalar. -/
def takeBreak (c : Cursor) : List Char × Cursor :=
  match c.rest with
  | '\r' :: '\n' :: _ => (['\n'], c.newLine 2)
  | x :: _ =>
    if x.toNat = 0x2028 ∨ x.toNat = 0x2029 then ([x], c.newLine 1)
    else if isBreak x then (['\n'], c.newLine 1)
    else ([], c)
  | [] => ([], c)

def takeWhile (c : Cursor) (p : Char → Bool) : List Char × Cursor :=
  let taken := c.rest.takeWhile p
  (taken, c.skip taken.length)

def skipWhile (c : Cursor) (p : Char → Bool) : Cursor := (c.takeWhile p).2

def skipGaps (c : Cursor) : Cursor := c.skipWhile isGap

/-- Steps over a comment, if one starts here, to the end of its line. -/
def skipComment (c : Cursor) : Cursor :=
  if c.looksAt '#' then c.skipWhile fun x => !isBreak x else c

/-- Whether a line here marks the start or end of a document. -/
def atDocumentMark (c : Cursor) : Bool :=
  c.column = 0 && c.opensAt 3 && (['-', '-', '-'].isPrefixOf c.rest || ['.', '.', '.'].isPrefixOf c.rest)

end Cursor
end Cascade.Yaml
