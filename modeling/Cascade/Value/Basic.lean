import Cascade.Table
import Cascade.Name
/-!
Values of the configuration language. Only `undef` and `false` are falsy, bare words are strings,
and a hash keeps its entries in the order they were put in.

There are three notions of agreement. `same` compares structure, `equal` is the language's `==`
(strings up to ASCII case, integers and floats as numbers), and `matchesOption` is what `case` and
selectors use.
-/
namespace Cascade

inductive Value
  | undef
  | default
  | bool (b : Bool)
  | integer (n : Int64)
  | float (x : Float)
  | string (s : String)
  | array (items : List Value)
  | hash (entries : List (String × Value))
  | type (name : String) (params : List Value)
  | regex (source : String)
  | resource (typeName title : String)
  deriving Inhabited

/-- A type by name, with parameters such as bounds or element types. -/
structure TypeRef where
  name : String
  params : List Value
  deriving Inhabited

namespace Value

def isTruthy : Value → Bool
  | undef | bool false => false
  | _ => true

def isUndef : Value → Bool
  | undef => true
  | _ => false

def typeName : Value → String
  | undef => "Undef"
  | default => "Default"
  | bool _ => "Boolean"
  | integer _ => "Integer"
  | float _ => "Float"
  | string _ => "String"
  | array _ => "Array"
  | hash _ => "Hash"
  | type .. => "Type"
  | regex _ => "Regexp"
  | resource .. => "Resource"

def asString? : Value → Option String
  | string s => some s
  | _ => none

/-- Floats this close to each other count as one number. -/
def epsilon : Float := Float.ofBits 0x3cb0000000000000

def sameNumber (n : Int64) (x : Float) : Bool := (n.toFloat - x).abs < epsilon

mutual
/-- Structural agreement; the order of hash entries does not matter, a NaN agrees with nothing. -/
def same : Value → Value → Bool
  | undef, undef | default, default => true
  | bool a, bool b => a == b
  | integer a, integer b => a == b
  | float a, float b => a == b
  | string a, string b => a == b
  | array a, array b => sameItems a b
  | hash a, hash b => a.length == b.length && sameEntries a b
  | type m p, type n q => m == n && sameItems p q
  | regex a, regex b => a == b
  | resource t a, resource u b => t == u && a == b
  | _, _ => false

def sameItems : List Value → List Value → Bool
  | [], [] => true
  | a :: as, b :: bs => same a b && sameItems as bs
  | _, _ => false

def sameEntries : List (String × Value) → List (String × Value) → Bool
  | [], _ => true
  | (k, v) :: es, t =>
    (match Table.get? t k with
      | some w => same v w
      | none => false) && sameEntries es t
end

mutual
def equal : Value → Value → Bool
  | string a, string b => Name.sameFold a b
  | integer n, float x | float x, integer n => sameNumber n x
  | array a, array b => equalItems a b
  | hash a, hash b => a.length == b.length && equalEntries a b
  | a, b => same a b

def equalItems : List Value → List Value → Bool
  | [], [] => true
  | a :: as, b :: bs => equal a b && equalItems as bs
  | _, _ => false

def equalEntries : List (String × Value) → List (String × Value) → Bool
  | [], _ => true
  | (k, v) :: es, t =>
    (match Table.get? t k with
      | some w => equal v w
      | none => false) && equalEntries es t
end

end Value
end Cascade
