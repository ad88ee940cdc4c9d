/-!
Random bytes. They come from an endless stream that is handed in from outside, and no byte of it is
used twice.
-/
namespace Cascade

structure Entropy where
  stream : Nat → UInt8
  used : Nat

namespace Entropy

/-- The bytes repeated for ever; there should be enough of them. -/
def ofBytes (bytes : ByteArray) : Entropy := ⟨fun i => bytes[i % bytes.size]?.getD 0, 0⟩

def take (e : Entropy) (n : Nat) : List UInt8 × Entropy :=
  ((List.range n).map fun i => e.stream (e.used + i), { e with used := e.used + n })

/-- A byte that is not zero, all of them equally likely but for a part in 2^56. -/
def nonZero (e : Entropy) : UInt8 × Entropy :=
  let (bytes, e) := e.take 8
  let n := bytes.foldl (fun n b => n * 256 + b.toNat) 0
  (UInt8.ofNat (n % 255 + 1), e)

def takeNonZero (e : Entropy) : (n : Nat) → List UInt8 × Entropy
  | 0 => ([], e)
  | n + 1 =>
    let (b, e) := e.nonZero
    let (bs, e) := takeNonZero e n
    (b :: bs, e)

end Entropy
end Cascade
