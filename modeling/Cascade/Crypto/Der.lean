import Cascade.Crypto.Bytes
/-!
Binary encoding of structured data. An element is a tag, the length of its content and the content;
lengths and numbers have their shortest form.
-/
namespace Cascade.Der

/-- The content of an element, and what follows it. -/
structure Element where
  tag : UInt8
  content : List UInt8
  rest : List UInt8

def sequenceTag : UInt8 := 0x30
def integerTag : UInt8 := 0x02
def bitStringTag : UInt8 := 0x03

/-- The length at the start of some bytes, and what follows it. -/
def length? : List UInt8 → Option (Nat × List UInt8)
  | [] => none
  | first :: rest =>
    let size := first.toNat - 0x80
    if first < 0x80 then some (first.toNat, rest)
    else if size = 0 || 4 < size || rest.length < size then none
    else
      let n := Bytes.toNat (rest.take size)
      if n < 0x80 || n < Nat.pow 256 (size - 1) || 0x10000000 ≤ n then none
      else some (n, rest.drop size)

def element? : List UInt8 → Option Element
  | [] => none
  | tag :: rest => do
    let (n, rest) ← length? rest
    guard (n ≤ rest.length)
    return ⟨tag, rest.take n, rest.drop n⟩

/-- The content of the element with a tag that the bytes start with, and what follows it. -/
def expect? (tag : UInt8) (bytes : List UInt8) : Option (List UInt8 × List UInt8) := do
  let e ← element? bytes
  guard (e.tag = tag)
  return (e.content, e.rest)

/-- The content of the element with a tag that the bytes consist of. -/
def only? (tag : UInt8) (bytes : List UInt8) : Option (List UInt8) := do
  let (content, rest) ← expect? tag bytes
  guard rest.isEmpty
  return content

/-- A number that is not negative. -/
def natural? : List UInt8 → Option Nat
  | [] => none
  | [b] => if b < 0x80 then some b.toNat else none
  | a :: b :: bs =>
    if 0x80 ≤ a || (a = 0 && b < 0x80) then none else some (Bytes.toNat (a :: b :: bs))

end Cascade.Der
