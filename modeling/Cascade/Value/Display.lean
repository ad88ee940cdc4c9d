import Cascade.Value.Basic
import Cascade.Decimal.Layout
import Cascade.Text.Case
/-!
The text of a value, as interpolation and messages show it. Strings are bare at the top and in
single quotes inside a collection, where `undef` gets a name too.
-/
namespace Cascade

/-- Floats never show an exponent, and whole ones show every digit. -/
def displayFloat : Decimal.FloatStyle :=
  { nan := "NaN", infinity := "inf", negativeInfinity := "-inf"
    exponentMark := none, exactWhole := true }

/-- Each `::` segment of a resource type starts with an upper-case letter. -/
def capitalizeSegments (name : String) : String :=
  String.ofList <| (List.intercalate [':', ':']
    ((Text.splitOn [':', ':'] name.toList).map Text.capitalize))

def displayInteger (n : Int64) : String :=
  if n.toInt < 0 then "-" ++ Decimal.digitText n.toInt.natAbs else Decimal.digitText n.toInt.natAbs

def bracketed (texts : List String) : String := "[" ++ ", ".intercalate texts ++ "]"

namespace Value

/-- Inside a collection: the text of `v` alone is `text`. -/
def nested (v : Value) (text : String) : String :=
  match v with
  | string _ => "'" ++ text ++ "'"
  | undef => "undef"
  | _ => text

mutual
def display : Value → String
  | undef => ""
  | default => "default"
  | bool b => if b then "true" else "false"
  | integer n => displayInteger n
  | float x => displayFloat.text x
  | string s => s
  | array items => bracketed (displayItems items)
  | hash entries => "\x7b" ++ ", ".intercalate (displayEntries entries) ++ "\x7d"
  | type name params => if params.isEmpty then name else name ++ bracketed (displayItems params)
  | regex source => "/" ++ source ++ "/"
  | resource typeName title => capitalizeSegments typeName ++ "['" ++ title ++ "']"

def displayItems : List Value → List String
  | [] => []
  | v :: vs => nested v (display v) :: displayItems vs

def displayEntries : List (String × Value) → List String
  | [] => []
  | (k, v) :: es => ("'" ++ k ++ "' => " ++ nested v (display v)) :: displayEntries es
end

end Value

def TypeRef.display (t : TypeRef) : String := (Value.type t.name t.params).display

end Cascade
