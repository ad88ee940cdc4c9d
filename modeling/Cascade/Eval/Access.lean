import Cascade.Error
import Cascade.Value.Admission
import Cascade.Value.Display
/-!
Reading parts of values. Negative positions count from the end, positions outside give `undef`, and a
slice never reaches beyond its sequence.
-/
namespace Cascade.Value

/-- Types of the language itself; any other type name with keys names a resource. -/
def coreTypes : List String :=
  ["Any", "Array", "Boolean", "Callable", "CatalogEntry", "Collection", "Data", "Default", "Enum",
    "Float", "Hash", "Integer", "Iterable", "Iterator", "NotUndef", "Numeric", "Object", "Optional",
    "Pattern", "Regexp", "Runtime", "Scalar", "ScalarData", "SemVer", "SemVerRange", "Sensitive",
    "String", "Struct", "Timespan", "Timestamp", "Tuple", "Type", "Undef", "Variant"]

/-- The place of a position in a sequence of `length`. -/
def position? (length : Nat) (i : Int) : Option Nat :=
  let i := if i < 0 then length + i else i
  if 0 ≤ i ∧ i < length then some i.toNat else none

/-- At most `count` elements from `start` on; a negative count takes all of them. -/
def slice {α : Type} (items : List α) (start count : Int) : List α :=
  match position? items.length start with
  | none => []
  | some p => if count < 0 then items.drop p else (items.drop p).take count.toNat

/-- A single value for itself, any other number of them as an array. -/
def oneOrArray : List Value → Value
  | [v] => v
  | vs => array vs

def invalidAccess (target : Value) (keys : List Value) : Except EvalError Value :=
  .error (.invalidAccess target.typeName ((keys.head?.map typeName).getD "nothing"))

def access (target : Value) (keys : List Value) : Except EvalError Value :=
  match target with
  | undef => .ok undef
  | hash entries => .ok (oneOrArray (keys.map fun k => (Table.get? entries k.display).getD undef))
  | array items =>
    match keys with
    | [integer i] => .ok (((position? items.length i.toInt).bind fun p => items[p]?).getD undef)
    | [integer start, integer count] => .ok (array (slice items start.toInt count.toInt))
    | _ => invalidAccess target keys
  | string s =>
    match keys with
    | [integer i] =>
      .ok (((position? s.length i.toInt).bind fun p => s.toList[p]?).elim undef
        fun c => string (String.singleton c))
    | [integer start, integer count] =>
      .ok (string (String.ofList (slice s.toList start.toInt count.toInt)))
    | _ => invalidAccess target keys
  | type name _ =>
    if coreTypes.contains name then .ok (type name keys)
    else .ok (oneOrArray (keys.map fun k => resource (Text.lowercase name) (Name.bare k.display)))
  | _ => invalidAccess target keys

/-- As a `when` value or selector key an array stands for its elements. -/
def matchesAlternative (v option : Value) : Bool :=
  match v, option with
  | array _, _ => v.matchesOption option
  | _, array alternatives => alternatives.any fun o => v.matchesOption o
  | _, _ => v.matchesOption option

mutual
/-- The class names that a value stands for; arrays are flattened. -/
def classNames : Value → List String
  | array items => classNamesOf items
  | resource _ title => [Name.bare title]
  | v => [Name.bare v.display]

def classNamesOf : List Value → List String
  | [] => []
  | v :: vs => classNames v ++ classNamesOf vs
end

end Cascade.Value
