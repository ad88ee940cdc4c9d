import Cascade.Value.Basic
/-!
Which values a type admits, and which values an option of a `case` or selector matches. The check is
conservative: a type this library does not know admits everything.
-/
namespace Cascade
namespace Value

/-- The bound that a parameter of `Integer` sets, if it sets one. -/
def bound? : Option Value → Option Int64
  | some (integer n) => some n
  | _ => none

def withinBounds (params : List Value) (n : Int64) : Bool :=
  (match bound? params[0]? with
    | some low => low ≤ n
    | none => true) &&
  (match bound? params[1]? with
    | some high => n ≤ high
    | none => true)

mutual
/-- Whether `v` is admitted by the type that the first value describes. -/
def admits : Value → Value → Bool
  | type name params, v =>
    match name with
    | "Undef" => v.isUndef
    | "NotUndef" => !v.isUndef
    | "String" | "Pattern" => v.asString?.isSome
    | "Enum" =>
      match v with
      | string s => params.isEmpty || params.any (·.asString? == some s)
      | _ => false
    | "Integer" =>
      match v with
      | integer n => withinBounds params n
      | _ => false
    | "Float" => match v with | float _ => true | _ => false
    | "Numeric" => match v with | integer _ | float _ => true | _ => false
    | "Boolean" => match v with | bool _ => true | _ => false
    | "Array" | "Tuple" =>
      match v with
      | array items =>
        match params with
        | (type n ps) :: _ => items.all fun item => admits (type n ps) item
        | _ => true
      | _ => false
    | "Hash" | "Struct" => match v with | hash _ => true | _ => false
    | "Optional" =>
      v.isUndef ||
        match params with
        | (type n ps) :: _ => admits (type n ps) v
        | (string _) :: _ => v.asString?.isSome
        | _ => true
    | "Variant" => anyAdmits params v
    | "Regexp" => match v with | regex _ => true | _ => false
    | "Type" => match v with | type .. => true | _ => false
    | _ => true
  | _, _ => false

def anyAdmits : List Value → Value → Bool
  | [], _ => false
  | p :: ps, v => admits p v || anyAdmits ps v
end

/-- `default` matches anything, strings match up to ASCII case, a type matches what it admits. -/
def matchesOption (v option : Value) : Bool :=
  match v, option with
  | _, default => true
  | string a, string b => Name.sameFold a b
  | integer n, float x | float x, integer n => sameNumber n x
  | type .., type .. => same v option
  | _, type .. => admits option v
  | _, _ => same v option

end Value

def TypeRef.accepts (t : TypeRef) (v : Value) : Bool := (Value.type t.name t.params).admits v

end Cascade
