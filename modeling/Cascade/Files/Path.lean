import Cascade.Text.Split
/-!
Paths. A path is text; what it names is the list of its components, in which doubled slashes and
`.` count for nothing, except a leading `.`. Whether `..` stays inside a directory is a question about
components alone (`Path.depth?`), asked without looking at any file.
-/
namespace Cascade.Path

inductive Component
  | root
  | here
  | up
  | name (s : String)
  deriving DecidableEq, Inhabited

def isAbsolute (p : String) : Bool := p.toList.head? == some '/'

/-- `p` taken from `base`; an absolute `p` replaces it. -/
def join (base p : String) : String :=
  if isAbsolute p then p
  else if base.isEmpty || base.toList.getLast? == some '/' then base ++ p
  else base ++ "/" ++ p

def pieces (p : String) : List String := (Text.splitBy (· = '/') p.toList).map String.ofList

def ofPiece? : String → Option Component
  | "" => none
  | "." => none
  | ".." => some .up
  | s => some (.name s)

/-- What a path starts with, before its pieces. -/
inductive Start
  | root
  | here
  | plain
  deriving DecidableEq

def Start.components : Start → List Component
  | root => [.root]
  | here => [.here]
  | plain => []

/-- A path cut into its start and the pieces between slashes after it. -/
def cut (p : String) : Start × List String :=
  match pieces p with
  | "" :: rest => if isAbsolute p then (.root, rest) else (.plain, rest)
  | "." :: rest => (.here, rest)
  | rest => (.plain, rest)

def components (p : String) : List Component :=
  (cut p).1.components ++ (cut p).2.filterMap ofPiece?

def slashed (pieces : List String) : String := "/".intercalate pieces

def assemble : Start → List String → String
  | .root, ps => "/" ++ slashed ps
  | .here, [] => "."
  | .here, ps => "./" ++ slashed ps
  | .plain, ps => slashed ps

def isFiller (piece : String) : Bool := (ofPiece? piece).isNone

def trimFillers (pieces : List String) : List String := (pieces.reverse.dropWhile isFiller).reverse

/-- The pieces left after the first `n` that count. -/
def dropNames : (n : Nat) → List String → List String
  | 0, ps => ps
  | _, [] => []
  | n + 1, p :: ps => dropNames (if isFiller p then n + 1 else n) ps

/-- What leads from `base` to `p`, if `base` is a beginning of `p`. -/
def stripBase? (base p : String) : Option String :=
  let b := components base
  let (start, ps) := cut p
  if b.isPrefixOf (components p) then
    if b.isEmpty then some (assemble start (trimFillers ps))
    else
      let rest := dropNames (b.length - start.components.length) ps
      some (slashed (trimFillers (rest.dropWhile isFiller)))
  else none

/-- The name that ends the path, unless it ends in `..` or names no entry at all. -/
def fileName? (p : String) : Option String :=
  match (components p).getLast? with
  | some (.name s) => some s
  | _ => none

/-- A file name cut at its last point; a name that only starts with a point has no extension. -/
def splitExtension (name : String) : String × Option String :=
  match Text.rsplitOnce ['.'] name.toList with
  | none | some ([], _) => (name, none)
  | some (stem, ext) => (String.ofList stem, some (String.ofList ext))

def extension? (p : String) : Option String := (fileName? p).bind fun s => (splitExtension s).2

/-- Puts `ext` in the place of the extension; a path without a file name stays as it is. -/
def withExtension (ext p : String) : String :=
  match fileName? p with
  | none => p
  | some name =>
    let (start, ps) := cut p
    assemble start ((trimFillers ps).dropLast ++ [(splitExtension name).1 ++ "." ++ ext])

/-- The path without its last component; the root and the empty path have none. -/
def parent? (p : String) : Option String :=
  let (start, ps) := cut p
  match trimFillers ps with
  | [] => if start = .here then some "" else none
  | ps => some (assemble start (trimFillers ps.dropLast))

def componentText : Component → String
  | .root => "/"
  | .here => "."
  | .up => ".."
  | .name s => s

/-- How far below the start a component leads from `depth` names below it. -/
def Component.depth? (depth : Nat) : Component → Option Nat
  | root => none
  | here => some depth
  | up => if depth = 0 then none else some (depth - 1)
  | name _ => some (depth + 1)

/-- How far below its start a path leads, if it never climbs above it. -/
def depth? (cs : List Component) : Option Nat := cs.foldlM Component.depth? 0

end Cascade.Path
