import Cascade.Crypto.Bytes
/-!
The block cipher AES with keys of 32 bytes. A block is a list of 16 bytes, four columns one after the
other; bytes are added by exclusive or and multiplied as polynomials modulo x^8 + x^4 + x^3 + x + 1.
-/
namespace Cascade.Aes

def double (a : UInt8) : UInt8 :=
  if a < 0x80 then a <<< 1 else (a <<< 1) ^^^ 0x1b

def times (a : UInt8) : (bits : Nat) → UInt8 → UInt8
  | 0, _ => 0
  | bits + 1, b => (if b % 2 = 1 then a else 0) ^^^ times (double a) bits (b >>> 1)

def mul (a b : UInt8) : UInt8 := times a 8 b

/-- `a ^ 254`, the inverse of every `a` but zero. -/
def inverse (a : UInt8) : UInt8 :=
  let square (x : UInt8) : UInt8 := mul x x
  let (_, product) := (List.range 7).foldl
    (fun (power, product) _ => (square power, mul product (square power))) (a, 1)
  product

def rotate (a : UInt8) (n : UInt8) : UInt8 := (a <<< n) ||| (a >>> (8 - n))

def substituteOf (a : UInt8) : UInt8 :=
  let b := inverse a
  b ^^^ rotate b 1 ^^^ rotate b 2 ^^^ rotate b 3 ^^^ rotate b 4 ^^^ 0x63

def substitutes : Array UInt8 := ((List.range 256).map fun n => substituteOf (UInt8.ofNat n)).toArray

def substitute (a : UInt8) : UInt8 := substitutes.getD a.toNat 0

abbrev Word := List UInt8

def rotateWord : Word → Word
  | [] => []
  | a :: rest => rest ++ [a]

def roundConstant : Nat → UInt8
  | 0 => 0
  | 1 => 1
  | n + 1 => double (roundConstant n)

/-- The word after the given ones, of which the newest comes first. -/
def nextWord (words : List Word) : Word :=
  let i := words.length
  let newest := words.headD []
  let mixed :=
    if i % 8 = 0 then Bytes.xor ((rotateWord newest).map substitute) [roundConstant (i / 8), 0, 0, 0]
    else if i % 8 = 4 then newest.map substitute
    else newest
  Bytes.xor (words.getD 7 []) mixed

def chunks (size : Nat) (bytes : List UInt8) : List (List UInt8) :=
  (List.range ((bytes.length + size - 1) / size)).map fun i => (bytes.drop (i * size)).take size

/-- The keys of the fifteen rounds. -/
def roundKeys (key : List UInt8) : List (List UInt8) :=
  let first := (chunks 4 key).reverse
  let all := (List.range 52).foldl (fun words _ => nextWord words :: words) first
  chunks 16 all.reverse.flatten

/-- Row `r` moves `r` columns to the left. -/
def shiftRows (block : List UInt8) : List UInt8 :=
  (List.range 16).map fun i => block.getD ((i + 4 * (i % 4)) % 16) 0

def mixColumn : Word → Word
  | [a, b, c, d] =>
    let triple (x : UInt8) : UInt8 := double x ^^^ x
    [double a ^^^ triple b ^^^ c ^^^ d, a ^^^ double b ^^^ triple c ^^^ d,
      a ^^^ b ^^^ double c ^^^ triple d, triple a ^^^ b ^^^ c ^^^ double d]
  | other => other

def mixColumns (block : List UInt8) : List UInt8 := (chunks 4 block).flatMap mixColumn

def rounds (block : List UInt8) : (keys : List (List UInt8)) → List UInt8
  | [] => block
  | [last] => Bytes.xor (shiftRows (block.map substitute)) last
  | key :: keys => rounds (Bytes.xor (mixColumns (shiftRows (block.map substitute))) key) keys

def encryptWith (keys : List (List UInt8)) (block : List UInt8) : List UInt8 :=
  match keys with
  | [] => block
  | first :: rest => rounds (Bytes.xor block first) rest

end Cascade.Aes
