import Cascade.Json.Basic
import Cascade.Decimal.Layout
/-!
JSON as text: `compact` without blanks, `pretty` with each item on a line of its own, two blanks further
in than what holds it. Members come in the order they have.
-/
namespace Cascade

/-- Large and small floats get an exponent with a sign; infinities and NaN have no number form. -/
def jsonFloat : Decimal.FloatStyle :=
  { nan := "null", infinity := "null", negativeInfinity := "null"
    exponentMark := some "e+", exactWhole := false }

namespace Json

def hexDigit (n : Nat) : Char := Nat.digitChar n

def escapeChar (c : Char) : List Char :=
  match c with
  | '"' => ['\\', '"']
  | '\\' => ['\\', '\\']
  | '\n' => ['\\', 'n']
  | '\r' => ['\\', 'r']
  | '\t' => ['\\', 't']
  | '\x08' => ['\\', 'b']
  | '\x0c' => ['\\', 'f']
  | c =>
    if c.toNat < 32 then
      ['\\', 'u', '0', '0', hexDigit (c.toNat / 16), hexDigit (c.toNat % 16)]
    else [c]

def quote (s : String) : String := String.ofList ('"' :: s.toList.flatMap escapeChar ++ ['"'])

def integerText (n : Int) : String :=
  (if n < 0 then "-" else "") ++ Decimal.digitText n.natAbs

def numberText : JsonNumber → String
  | .integer n => integerText n
  | .float x => jsonFloat.text x

mutual
def compact : Json → String
  | null => "null"
  | bool b => if b then "true" else "false"
  | number n => numberText n
  | string s => quote s
  | array items => "[" ++ ",".intercalate (compactItems items) ++ "]"
  | object members => "\x7b" ++ ",".intercalate (compactMembers members) ++ "\x7d"

def compactItems : List Json → List String
  | [] => []
  | j :: js => compact j :: compactItems js

def compactMembers : List (String × Json) → List String
  | [] => []
  | (k, j) :: ms => (quote k ++ ":" ++ compact j) :: compactMembers ms
end

def indent (depth : Nat) : String := "\n" ++ String.ofList (List.replicate (2 * depth) ' ')

/-- Brackets around the items, each on a line of its own; nothing inside stays on one line. -/
def enclose (opening closing : String) (depth : Nat) (items : List String) : String :=
  if items.isEmpty then opening ++ closing
  else opening ++ ",".intercalate (items.map (indent (depth + 1) ++ ·)) ++ indent depth ++ closing

mutual
def pretty (depth : Nat) : Json → String
  | array items => enclose "[" "]" depth (prettyItems (depth + 1) items)
  | object members => enclose "\x7b" "\x7d" depth (prettyMembers (depth + 1) members)
  | j => j.compact

def prettyItems (depth : Nat) : List Json → List String
  | [] => []
  | j :: js => pretty depth j :: prettyItems depth js

def prettyMembers (depth : Nat) : List (String × Json) → List String
  | [] => []
  | (k, j) :: ms => (quote k ++ ": " ++ pretty depth j) :: prettyMembers depth ms
end

end Json
end Cascade
