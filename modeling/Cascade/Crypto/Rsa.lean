import Cascade.Crypto.Der
import Cascade.Crypto.Entropy
import Cascade.Crypto.Pem
/-!
RSA public keys and the wrapping of short messages with them. A key comes labelled `PUBLIC KEY`, with
the algorithm named inside, or `RSA PUBLIC KEY`, the bare key. A message is padded with random bytes
to the size of the key before it is raised to the exponent.
-/
namespace Cascade.Rsa

/-- A key that has an odd modulus of at most 4096 bits, and a smaller odd exponent below 2^33. -/
structure PublicKey where
  modulus : Nat
  exponent : Nat

def isUsable (k : PublicKey) : Bool :=
  k.modulus.log2 < 4096 && k.modulus % 2 = 1 && k.exponent < k.modulus && k.exponent % 2 = 1 &&
    1 < k.exponent && k.exponent < 0x200000000

/-- The bare key: the modulus and the exponent. -/
def ofKeyBytes? (bytes : List UInt8) : Option PublicKey := do
  let content ← Der.only? Der.sequenceTag bytes
  let (modulus, rest) ← Der.expect? Der.integerTag content
  let exponent ← Der.only? Der.integerTag rest
  let key : PublicKey := ⟨← Der.natural? modulus, ← Der.natural? exponent⟩
  guard (isUsable key)
  return key

/-- The name of the algorithm, and no parameters. -/
def algorithm : List UInt8 :=
  [0x06, 0x09, 0x2a, 0x86, 0x48, 0x86, 0xf7, 0x0d, 0x01, 0x01, 0x01, 0x05, 0x00]

/-- The key with its algorithm. -/
def ofSubjectBytes? (bytes : List UInt8) : Option PublicKey := do
  let content ← Der.only? Der.sequenceTag bytes
  let (named, rest) ← Der.expect? Der.sequenceTag content
  guard (named = algorithm)
  match ← Der.only? Der.bitStringTag rest with
  | 0 :: key => ofKeyBytes? key
  | _ => none

def ofText? (text : String) : Option PublicKey := do
  let pem ← Pem.parse? text
  if pem.label = "PUBLIC KEY".toList then ofSubjectBytes? pem.bytes
  else if pem.label = "RSA PUBLIC KEY".toList then ofKeyBytes? pem.bytes
  else none

/-- `base ^ exponent % modulus`, by squaring. -/
def powerMod (base exponent modulus : Nat) : Nat :=
  if exponent = 0 then 1 % modulus
  else
    let half := powerMod (base * base % modulus) (exponent / 2) modulus
    if exponent % 2 = 1 then base * half % modulus else half
termination_by exponent

namespace PublicKey

/-- How many bytes the modulus has. -/
def size (k : PublicKey) : Nat := if k.modulus = 0 then 0 else k.modulus.log2 / 8 + 1

/-- `0, 2, padding, 0, message`, as long as the key; `none` if the message leaves no room for eight
bytes of padding. -/
def pad? (k : PublicKey) (message : List UInt8) (entropy : Entropy) :
    Option (List UInt8 × Entropy) :=
  if k.size < message.length + 11 then none
  else
    let (padding, entropy) := entropy.takeNonZero (k.size - message.length - 3)
    some ([0, 2] ++ padding ++ [0] ++ message, entropy)

def wrap? (k : PublicKey) (message : List UInt8) (entropy : Entropy) :
    Option (List UInt8 × Entropy) := do
  let (padded, entropy) ← k.pad? message entropy
  return (Bytes.ofNat k.size (powerMod (Bytes.toNat padded) k.exponent k.modulus), entropy)

end PublicKey
end Cascade.Rsa
