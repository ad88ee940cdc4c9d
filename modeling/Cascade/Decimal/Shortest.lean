/-!
The fewest decimal digits that read back as a given floating-point number. A finite number is
`m · 2^q`; every real between it and the middle to its neighbours reads back as it, the middles
included when `m` is even. Grids of ever smaller powers of ten are tried until one has a point in
that interval, and of two points the nearer is taken.
-/
namespace Cascade.Decimal

/-- The non-negative number `mantissa · 2^exponent`. -/
structure Dyadic where
  mantissa : Nat
  exponent : Int

/-- The non-negative number `coefficient · 10^exponent`. -/
structure Scaled where
  coefficient : Nat
  exponent : Int

inductive FloatClass
  | nan
  | infinite (negative : Bool)
  | finite (negative : Bool) (magnitude : Dyadic)

/-- The bit of a mantissa that floats leave out, 2^52. -/
def leadingBit : Nat := 0x10000000000000

def classify (x : Float) : FloatClass :=
  let bits := x.toBits.toNat
  let negative := bits / 0x8000000000000000 == 1
  let biased : Nat := bits / leadingBit % 2048
  let fraction : Nat := bits % leadingBit
  if biased = 2047 then if fraction = 0 then .infinite negative else .nan
  else if biased = 0 then .finite negative ⟨fraction, -1074⟩
  else .finite negative ⟨leadingBit + fraction, (biased : Int) - 1075⟩

/-- The number in quarters of its last place, as a fraction of whole grid steps `10^k`. -/
structure OnGrid where
  low : Nat
  value : Nat
  high : Nat
  step : Nat
  closed : Bool

def Dyadic.onGrid (d : Dyadic) (k : Int) : OnGrid :=
  let quarter := d.exponent - 2
  let up := Nat.pow 2 quarter.toNat * Nat.pow 10 (-k).toNat
  let below := if d.mantissa = leadingBit ∧ -1074 < d.exponent then 1 else 2
  { low := (4 * d.mantissa - below) * up
    value := 4 * d.mantissa * up
    high := (4 * d.mantissa + 2) * up
    step := Nat.pow 2 (-quarter).toNat * Nat.pow 10 k.toNat
    closed := d.mantissa % 2 == 0 }

def OnGrid.reads (g : OnGrid) (n : Nat) : Bool :=
  if g.closed then g.low ≤ n * g.step && n * g.step ≤ g.high
  else g.low < n * g.step && n * g.step < g.high

/-- The grid point that stands for the number, if the grid is fine enough to have one. -/
def OnGrid.nearest? (g : OnGrid) : Option Nat :=
  let n := g.value / g.step
  let below := g.value - n * g.step
  let above := (n + 1) * g.step - g.value
  match g.reads n, g.reads (n + 1) with
  | true, true => some (if below < above ∨ (below = above ∧ n % 2 = 0) then n else n + 1)
  | true, false => some n
  | false, true => some (n + 1)
  | false, false => none

def Dyadic.atLeastPow10 (d : Dyadic) (k : Int) : Bool :=
  Nat.pow 10 k.toNat * Nat.pow 2 (-d.exponent).toNat ≤
    d.mantissa * Nat.pow 2 d.exponent.toNat * Nat.pow 10 (-k).toNat

/-- The place of the leading decimal digit. -/
def Dyadic.leading (d : Dyadic) : Int :=
  let guess := Int.fdiv (((Nat.log2 d.mantissa : Int) + d.exponent) * 30103) 100000
  if d.atLeastPow10 (guess + 1) then guess + 1 else guess

/-- Moves zeros at the end of the coefficient into the exponent. -/
def Scaled.strip (fuel : Nat) (s : Scaled) : Scaled :=
  match fuel with
  | 0 => s
  | fuel + 1 =>
    if s.coefficient ≠ 0 ∧ s.coefficient % 10 = 0 then strip fuel ⟨s.coefficient / 10, s.exponent + 1⟩
    else s

/-- Seventeen digits always read back. -/
def Dyadic.shortest (d : Dyadic) : Scaled :=
  let top := d.leading
  let found := (List.range 17).findSome? fun (n : Nat) =>
    (d.onGrid (top - n)).nearest?.map fun c => Scaled.mk c (top - n)
  match found with
  | some s => s.strip 20
  | none => ⟨0, 0⟩

/-- The number itself, when it is a natural number. -/
def Dyadic.toNat? (d : Dyadic) : Option Nat :=
  if 0 ≤ d.exponent then some (d.mantissa * Nat.pow 2 d.exponent.toNat)
  else
    let den := Nat.pow 2 (-d.exponent).toNat
    if d.mantissa % den = 0 then some (d.mantissa / den) else none

end Cascade.Decimal
