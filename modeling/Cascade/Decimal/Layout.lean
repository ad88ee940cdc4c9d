import Cascade.Decimal.Shortest
/-!
How a floating-point number is laid out as text. A `FloatStyle` holds the choices of one format; the
digits are the shortest ones that read back, except where a style asks for whole numbers in full.
-/
namespace Cascade.Decimal

structure FloatStyle where
  nan : String
  infinity : String
  negativeInfinity : String
  /-- Written before a positive exponent; without it numbers never get an exponent. -/
  exponentMark : Option String
  /-- Whole numbers show every digit of their exact value. -/
  exactWhole : Bool

def digitText (n : Nat) : String := String.ofList (Nat.toDigits 10 n)

def zeros (n : Nat) : String := String.ofList (List.replicate n '0')

/-- Puts the point after the first `place` digits, with zeros where digits are missing. -/
def positional (digits : String) (place : Int) : String :=
  let n : Int := digits.length
  if n ≤ place then digits ++ zeros (place - n).toNat ++ ".0"
  else if 0 < place then
    String.ofList (digits.toList.take place.toNat) ++ "." ++
      String.ofList (digits.toList.drop place.toNat)
  else "0." ++ zeros (-place).toNat ++ digits

def scientific (mark digits : String) (place : Int) : String :=
  let e := place - 1
  let exponent := if e < 0 then "e-" ++ digitText e.natAbs else mark ++ digitText e.natAbs
  match digits.toList with
  | [] => exponent
  | [d] => String.ofList [d] ++ exponent
  | d :: rest => String.ofList (d :: '.' :: rest) ++ exponent

def FloatStyle.magnitude (style : FloatStyle) (d : Dyadic) : String :=
  if d.mantissa = 0 then "0.0"
  else match style.exactWhole, d.toNat? with
    | true, some n => digitText n ++ ".0"
    | _, _ =>
      let s := d.shortest
      let digits := digitText s.coefficient
      let place := (digits.length : Int) + s.exponent
      match style.exponentMark with
      | none => positional digits place
      | some mark =>
        if -5 < place ∧ place ≤ 16 then positional digits place else scientific mark digits place

def FloatStyle.text (style : FloatStyle) (x : Float) : String :=
  match classify x with
  | .nan => style.nan
  | .infinite negative => if negative then style.negativeInfinity else style.infinity
  | .finite negative d => (if negative then "-" else "") ++ style.magnitude d

end Cascade.Decimal
