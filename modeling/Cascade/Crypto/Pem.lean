import Cascade.Text.Base64
import Cascade.Text.Split
/-!
Labelled base64 text:

    -----BEGIN PUBLIC KEY-----
    MIGfMA0GCSqGSIb3DQEBAQUAA4GNADCBiQKBgQDF8GswTbfjbxJHeDALSpls9P0q
    ...
    -----END PUBLIC KEY-----

Any lines may stand before it, at most one end of line after it. All lines but the last have 64
characters.
-/
namespace Cascade

structure Pem where
  label : List Char
  bytes : List UInt8

namespace Pem

def opening : List Char := "-----BEGIN ".toList
def closing : List Char := "-----END ".toList
def dashes : List Char := "-----".toList

def lineWidth : Nat := 64

/-- The text from the opening line on, which starts the text or follows a line feed. -/
def afterPreamble? : List Char → Option (List Char)
  | [] => none
  | '\x00' :: _ => none
  | '\n' :: s =>
    match Text.strip? opening s with
    | some rest => some rest
    | none => afterPreamble? s
  | _ :: s => afterPreamble? s

def afterOpening? (s : List Char) : Option (List Char) :=
  match Text.strip? opening s with
  | some rest => some rest
  | none => afterPreamble? s

def dropLineEnd? : List Char → Option (List Char)
  | '\r' :: '\n' :: s => some s
  | '\n' :: s | '\r' :: s => some s
  | _ => none

/-- As `dropLineEnd?`, for text whose characters stand in reverse. -/
def dropLastLineEnd? : List Char → Option (List Char)
  | '\n' :: '\r' :: s => some s
  | '\n' :: s | '\r' :: s => some s
  | _ => none

def isLabelChar (c : Char) : Bool := '!' ≤ c && c ≤ '~'

/-- Words of visible characters with one blank before each further word. -/
def isLabel : List Char → Bool
  | [] => true
  | c :: s => isLabelChar c && inside false s
where
  inside : (afterBlank : Bool) → List Char → Bool
    | _, [] => true
    | afterBlank, c :: s =>
      if c = ' ' then !afterBlank && inside true s else isLabelChar c && inside false s

/-- Puts the lines together, all but the last of full width. -/
def joinLines? (steps : Nat) (s : List Char) : Option (List Char) :=
  match steps with
  | 0 => none
  | steps + 1 =>
    if s.length ≤ lineWidth then some s
    else do
      let rest ← dropLineEnd? (s.drop lineWidth)
      return s.take lineWidth ++ (← joinLines? steps rest)

def parse? (text : String) : Option Pem := do
  let s ← afterOpening? text.toList
  let label := s.takeWhile (· ≠ '-')
  guard (isLabel label)
  let body ← Text.strip? dashes (s.drop label.length)
  let body ← dropLineEnd? body
  let ending := body.reverse
  let ending := (dropLastLineEnd? ending).getD ending
  let ending ← Text.strip? (closing ++ label ++ dashes).reverse ending
  let lines := (← dropLastLineEnd? ending).reverse
  return ⟨label, ← Text.Base64.decode? (← joinLines? (lines.length + 1) lines)⟩

end Pem
end Cascade
