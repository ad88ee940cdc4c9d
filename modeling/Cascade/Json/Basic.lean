import Cascade.Table
/-!
JSON documents. Each key of an object occurs once. Documents that were read, and values made by
`ofMembers`, have their members in the order of the keys; whoever makes an object directly chooses the
order.
-/
namespace Cascade

/-- An integer that fits 64 bits, signed or unsigned, or else a finite float. -/
inductive JsonNumber
  | integer (n : Int)
  | float (x : Float)
  deriving Inhabited

inductive Json
  | null
  | bool (b : Bool)
  | number (n : JsonNumber)
  | string (s : String)
  | array (items : List Json)
  | object (members : List (String × Json))
  deriving Inhabited

namespace Json

/-- Puts a member in its place among sorted members, replacing one of the same key. -/
def insertMember (key : String) (v : Json) : List (String × Json) → List (String × Json)
  | [] => [(key, v)]
  | (k, w) :: ms =>
    if k = key then (key, v) :: ms
    else if key < k then (key, v) :: (k, w) :: ms
    else (k, w) :: insertMember key v ms

/-- The object with these members; of a repeated key the last value counts. -/
def ofMembers (members : List (String × Json)) : Json :=
  object (members.foldl (fun ms m => insertMember m.1 m.2 ms) [])

def get? : Json → String → Option Json
  | object members, key => Table.get? members key
  | _, _ => none

def ofInt (n : Int) : Json := number (.integer n)

def ofNat (n : Nat) : Json := number (.integer n)

def asArray? : Json → Option (List Json)
  | array items => some items
  | _ => none

end Json
end Cascade
