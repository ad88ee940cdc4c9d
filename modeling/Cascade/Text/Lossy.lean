/-!
Reading bytes that need not be text. Every maximal start of a character that is then broken off, and
every byte that starts none, is read as the replacement character.
-/
namespace Cascade.Text

/-- The bounds of the bytes that have to follow the first byte of a character. -/
def followers (first : Nat) : List (Nat × Nat) :=
  let any := (0x80, 0xbf)
  if first < 0xc2 then []
  else if first < 0xe0 then [any]
  else if first = 0xe0 then [(0xa0, 0xbf), any]
  else if first = 0xed then [(0x80, 0x9f), any]
  else if first < 0xf0 then [any, any]
  else if first = 0xf0 then [(0x90, 0xbf), any, any]
  else if first < 0xf4 then [any, any, any]
  else if first = 0xf4 then [(0x80, 0x8f), any, any]
  else []

/-- How many of the bytes keep to the bounds, up to the first that does not. -/
def following : List UInt8 → List (Nat × Nat) → Nat
  | b :: bytes, (low, high) :: bounds =>
    if low ≤ b.toNat && b.toNat ≤ high then following bytes bounds + 1 else 0
  | _, _ => 0

def replacement : String := "\ufffd"

/-- The character with these bytes. -/
def character (first : UInt8) (rest : List UInt8) : String :=
  (String.fromUTF8? (ByteArray.mk (first :: rest).toArray)).getD replacement

def lossy : List UInt8 → String
  | [] => ""
  | b :: rest =>
    let bounds := followers b.toNat
    let n := following rest bounds
    let whole := b < 0x80 || (!bounds.isEmpty && n = bounds.length)
    (if whole then character b (rest.take n) else replacement) ++ lossy (rest.drop n)
termination_by bytes => bytes.length

end Cascade.Text
