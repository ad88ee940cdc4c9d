import Cascade.Decimal.Count
import Cascade.Text.Blank
import Cascade.Value.Display
/-!
Templates such as `nodes/%{trusted.certname}.yaml`. A template is read once, from left to right, into
literal characters and references; what a reference is replaced by is never read again. A reference
without its closing brace drops the rest of the template.
-/
namespace Cascade.Template

inductive Piece
  | literal (c : Char)
  | reference (path : List Char)
  deriving DecidableEq

mutual
def pieces : List Char → List Piece
  | [] => []
  | '%' :: '{' :: s => piecesInside [] s
  | c :: s => .literal c :: pieces s

/-- Inside a reference, of which `path` has been read, last character first. -/
def piecesInside (path : List Char) : List Char → List Piece
  | [] => []
  | '}' :: s => .reference path.reverse :: pieces s
  | c :: s => piecesInside (c :: path) s
end

/-- One step down: a key of a hash or a position in an array. -/
def member? (segment : List Char) : Value → Option Value
  | .hash entries => Table.get? entries (String.ofList segment)
  | .array items => (Decimal.readCount? segment).bind fun i => items[i]?
  | _ => none

def walk : (segments : List (List Char)) → Value → Option Value
  | [], v => some v
  | segment :: rest, v => (member? segment v).bind (walk rest)

/-- The text of the value that a dotted path leads to; nothing if it leads nowhere. -/
def valueText (scope : Value) (path : List Char) : String :=
  match Name.dropColons (Text.trim path) with
  | [] => ""
  | path => match walk (Text.splitBy (· = '.') path) scope with
    | some v => v.display
    | none => ""

def Piece.expand (accepts : String → Bool) (scope : Value) : Piece → List Char
  | .literal c => [c]
  | .reference path =>
    let text := valueText scope path
    if accepts text then text.toList else []

def expand (accepts : String → Bool) (scope : Value) (template : String) : String :=
  String.ofList ((pieces template.toList).flatMap (Piece.expand accepts scope))

def interpolate (scope : Value) (template : String) : String :=
  expand (fun _ => true) scope template

/-- Whether a value can stand in a path without leading out of its directory. -/
def isSafe (text : String) : Bool :=
  text != ".." && !text.toList.any fun c => c = '/' || c = '\\' || c = '\x00'

/-- As `interpolate`, but values that are not safe in a path are left out. -/
def interpolatePath (scope : Value) (template : String) : String := expand isSafe scope template

end Cascade.Template
