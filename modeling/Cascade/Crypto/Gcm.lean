import Cascade.Crypto.Aes
/-!
Authenticated encryption of a text of any length. The text is added to a keystream, the ciphers of
consecutive counters; the tag of 16 bytes behind it is a polynomial in the blocks of the ciphertext,
taken over the field with 2^128 elements. Nonces have twelve bytes.
-/
namespace Cascade.Gcm

/-- Multiplies by the second factor bit by bit, the most significant bit of a block being the constant
coefficient. -/
def timesBits (v y : Nat) : (bits : Nat) → Nat
  | 0 => 0
  | bits + 1 =>
    let next := if v % 2 = 1 then (v / 2) ^^^ 0xe1000000000000000000000000000000 else v / 2
    (if y.testBit bits then v else 0) ^^^ timesBits next y bits

def mul (x y : Nat) : Nat := timesBits x y 128

/-- The blocks of a text, the last one filled up with zeros. -/
def blocks (bytes : List UInt8) : List Nat :=
  (Aes.chunks 16 bytes).map fun b => Bytes.toNat (b ++ List.replicate (16 - b.length) 0)

def hash (subkey : Nat) (blocks : List Nat) : Nat :=
  blocks.foldl (fun y x => mul (y ^^^ x) subkey) 0

/-- The block with a nonce and a counter. -/
def counterBlock (nonce : List UInt8) (n : Nat) : List UInt8 := nonce ++ Bytes.ofNat 4 n

def keystream (keys : List (List UInt8)) (nonce : List UInt8) (length : Nat) : List UInt8 :=
  ((List.range ((length + 15) / 16)).flatMap fun i =>
    Aes.encryptWith keys (counterBlock nonce (i + 2))).take length

/-- The ciphertext with its tag. -/
def encrypt (key nonce text : List UInt8) : List UInt8 :=
  let keys := Aes.roundKeys key
  let cipher := Bytes.xor text (keystream keys nonce text.length)
  let subkey := Bytes.toNat (Aes.encryptWith keys (List.replicate 16 0))
  let digest := hash subkey (blocks cipher ++ [text.length * 8])
  cipher ++ Bytes.xor (Bytes.ofNat 16 digest) (Aes.encryptWith keys (counterBlock nonce 1))

end Cascade.Gcm
