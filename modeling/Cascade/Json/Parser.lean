import Cascade.Json.Basic
import Cascade.Decimal.Read
/-!
Reading JSON. Values may nest 127 deep; an integer that fits no 64-bit word becomes a float, as does
`-0`; a float that would be infinite is refused, and so is half of a surrogate pair. A decimal is
read as its first digits, as many as fit a word, times or divided by a power of ten.
-/
namespace Cascade

inductive JsonError
  | unexpectedEnd
  | unexpected (c : Char)
  | tooDeep
  | numberOutOfRange
  | badEscape
  | trailing
  deriving DecidableEq

def JsonError.message : JsonError → String
  | unexpectedEnd => "unexpected end of text"
  | unexpected c => "unexpected character " ++ String.ofList [c]
  | tooDeep => "recursion limit exceeded"
  | numberOutOfRange => "number out of range"
  | badEscape => "invalid escape"
  | trailing => "trailing characters"

namespace Json

def isSpace (c : Char) : Bool := c == ' ' || c == '\n' || c == '\t' || c == '\r'

def skipSpace (s : List Char) : List Char := s.dropWhile isSpace

def hexValue? (c : Char) : Option Nat :=
  if c.isDigit then some (c.toNat - '0'.toNat)
  else if 'a' ≤ c ∧ c ≤ 'f' then some (c.toNat - 'a'.toNat + 10)
  else if 'A' ≤ c ∧ c ≤ 'F' then some (c.toNat - 'A'.toNat + 10)
  else none

/-- Four hexadecimal digits. -/
def readUnit : List Char → Option (Nat × List Char)
  | a :: b :: c :: d :: s => do
    let a ← hexValue? a
    let b ← hexValue? b
    let c ← hexValue? c
    let d ← hexValue? d
    return (((a * 16 + b) * 16 + c) * 16 + d, s)
  | _ => none

/-- The character after `\u`, which may need a second escape. -/
def readCodePoint (s : List Char) : Option (Char × List Char) := do
  let (high, s) ← readUnit s
  if 0xd800 ≤ high ∧ high < 0xdc00 then
    match s with
    | '\\' :: 'u' :: s =>
      let (low, s) ← readUnit s
      if 0xdc00 ≤ low ∧ low < 0xe000 then
        return (Char.ofNat (0x10000 + (high - 0xd800) * 0x400 + (low - 0xdc00)), s)
      else none
    | _ => none
  else if 0xdc00 ≤ high ∧ high < 0xe000 then none
  else return (Char.ofNat high, s)

def simpleEscape? : Char → Option Char
  | '"' => some '"'
  | '\\' => some '\\'
  | '/' => some '/'
  | 'b' => some '\x08'
  | 'f' => some '\x0c'
  | 'n' => some '\n'
  | 'r' => some '\r'
  | 't' => some '\t'
  | _ => none

/-- The rest of a string after its opening quote; `done` is what was read, in reverse. -/
def readString (fuel : Nat) (done : List Char) (s : List Char) : Except JsonError (String × List Char) :=
  match fuel, s with
  | 0, _ | _, [] => .error .unexpectedEnd
  | _, '"' :: s => .ok (String.ofList done.reverse, s)
  | fuel + 1, '\\' :: 'u' :: s =>
    match readCodePoint s with
    | some (c, s) => readString fuel (c :: done) s
    | none => .error .badEscape
  | _, ['\\'] => .error .unexpectedEnd
  | fuel + 1, '\\' :: e :: s =>
    match simpleEscape? e with
    | some c => readString fuel (c :: done) s
    | none => .error .badEscape
  | fuel + 1, c :: s =>
    if c.toNat < 32 then .error (.unexpected c) else readString fuel (c :: done) s

/-- Takes digits as long as the value fits an unsigned word. -/
def takeSignificand : (value : Nat) → List Char → Nat × List Char
  | value, [] => (value, [])
  | value, c :: s =>
    if c.isDigit ∧ value * 10 + Decimal.digitValue c < UInt64.size then
      takeSignificand (value * 10 + Decimal.digitValue c) s
    else (value, c :: s)

def floatResult (negative : Bool) (significand : Nat) (exponent : Int) (s : List Char) :
    Except JsonError (JsonNumber × List Char) :=
  match Decimal.scaledByTable significand exponent with
  | some x => .ok (.float (Decimal.signed negative x), s)
  | none => .error .numberOutOfRange

/-- The exponent after `e`; one that fits no 32-bit word makes the number zero or refuses it. -/
def readExponent (negative : Bool) (significand : Nat) (scale : Int) (s : List Char) :
    Except JsonError (JsonNumber × List Char) :=
  let (down, s) := Decimal.readSign s
  let digits := s.takeWhile Char.isDigit
  let rest := s.dropWhile Char.isDigit
  match digits, rest with
  | [], [] => .error .unexpectedEnd
  | [], c :: _ => .error (.unexpected c)
  | _, _ =>
    let size := Decimal.digitsValue digits
    if size < 0x80000000 then floatResult negative significand (if down then scale - size else scale + size) rest
    else if significand ≠ 0 ∧ !down then .error .numberOutOfRange
    else .ok (.float (Decimal.signed negative 0.0), rest)

/-- The part after the point. Digits that no longer fit are passed over. -/
def readFraction (negative : Bool) (significand : Nat) (scale : Int) (s : List Char) :
    Except JsonError (JsonNumber × List Char) :=
  match s with
  | [] => .error .unexpectedEnd
  | c :: _ =>
    if !c.isDigit then .error (.unexpected c)
    else
      let (value, rest) := takeSignificand significand s
      let scale := scale - ((s.length - rest.length : Nat) : Int)
      match rest.dropWhile Char.isDigit with
      | 'e' :: r | 'E' :: r => readExponent negative value scale r
      | r => floatResult negative value scale r

def wholeNumber (negative : Bool) (n : Nat) : JsonNumber :=
  if !negative then .integer n
  else if n = 0 ∨ 0x8000000000000000 < n then .float (-n.toUInt64.toFloat)
  else .integer (-(n : Int))

def readUnsigned (negative : Bool) (s : List Char) : Except JsonError (JsonNumber × List Char) :=
  match s with
  | [] => .error .unexpectedEnd
  | '0' :: c :: r =>
    if c.isDigit then .error (.unexpected c) else tail 0 0 (c :: r)
  | c :: _ =>
    if !c.isDigit then .error (.unexpected c)
    else
      let (value, rest) := takeSignificand 0 s
      let more := rest.takeWhile Char.isDigit
      tail value more.length (rest.dropWhile Char.isDigit)
where
  tail (value : Nat) (dropped : Nat) (s : List Char) : Except JsonError (JsonNumber × List Char) :=
    match s with
    | '.' :: r => readFraction negative value dropped r
    | 'e' :: r | 'E' :: r => readExponent negative value dropped r
    | r =>
      if dropped = 0 then .ok (wholeNumber negative value, r)
      else floatResult negative value dropped r

def readNumber : List Char → Except JsonError (JsonNumber × List Char)
  | '-' :: s => readUnsigned true s
  | s => readUnsigned false s

def readWord (word : String) (value : Json) (s : List Char) : Except JsonError (Json × List Char) :=
  if s.take word.length = word.toList then .ok (value, s.drop word.length)
  else match s.drop (s.zip word.toList |>.takeWhile fun p => p.1 = p.2).length with
    | [] => .error .unexpectedEnd
    | c :: _ => .error (.unexpected c)

mutual
/-- Each step takes a character, so the length of the text is fuel enough. -/
def readValue (fuel depth : Nat) (s : List Char) : Except JsonError (Json × List Char) :=
  match fuel with
  | 0 => .error .unexpectedEnd
  | fuel + 1 =>
    match skipSpace s with
    | [] => .error .unexpectedEnd
    | 'n' :: r => readWord "ull" null r
    | 't' :: r => readWord "rue" (bool true) r
    | 'f' :: r => readWord "alse" (bool false) r
    | '"' :: r => do
      let (text, r) ← readString (r.length + 1) [] r
      return (string text, r)
    | '[' :: r =>
      match depth with
      | 0 => .error .tooDeep
      | depth + 1 =>
        match skipSpace r with
        | ']' :: r => .ok (array [], r)
        | r => do
          let (items, r) ← readItems fuel depth r
          return (array items, r)
    | '\x7b' :: r =>
      match depth with
      | 0 => .error .tooDeep
      | depth + 1 =>
        match skipSpace r with
        | '\x7d' :: r => .ok (object [], r)
        | r => do
          let (members, r) ← readMembers fuel depth r
          return (ofMembers members, r)
    | c :: r =>
      if c.isDigit ∨ c = '-' then do
        let (n, r) ← readNumber (c :: r)
        return (number n, r)
      else .error (.unexpected c)

def readItems (fuel depth : Nat) (s : List Char) : Except JsonError ((List Json) × List Char) :=
  match fuel with
  | 0 => .error .unexpectedEnd
  | fuel + 1 => do
    let (item, s) ← readValue fuel depth s
    match skipSpace s with
    | ']' :: s => return ([item], s)
    | ',' :: s =>
      let (items, s) ← readItems fuel depth s
      return (item :: items, s)
    | c :: _ => .error (.unexpected c)
    | [] => .error .unexpectedEnd

def readMembers (fuel depth : Nat) (s : List Char) : Except JsonError ((List (String × Json)) × List Char) :=
  match fuel with
  | 0 => .error .unexpectedEnd
  | fuel + 1 =>
    match skipSpace s with
    | '"' :: s => do
      let (key, s) ← readString (s.length + 1) [] s
      match skipSpace s with
      | ':' :: s =>
        let (value, s) ← readValue fuel depth s
        match skipSpace s with
        | '\x7d' :: s => return ([(key, value)], s)
        | ',' :: s =>
          let (members, s) ← readMembers fuel depth s
          return ((key, value) :: members, s)
        | c :: _ => .error (.unexpected c)
        | [] => .error .unexpectedEnd
      | c :: _ => .error (.unexpected c)
      | [] => .error .unexpectedEnd
    | c :: _ => .error (.unexpected c)
    | [] => .error .unexpectedEnd
end

/-- The document that the text holds, with nothing but blanks around it. -/
def parse (text : String) : Except JsonError Json := do
  let s := text.toList
  let (value, rest) ← readValue (2 * s.length + 2) 127 s
  match skipSpace rest with
  | [] => return value
  | _ => .error .trailing

end Json
end Cascade
