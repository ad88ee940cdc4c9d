import Cascade.Files.Path
import Cascade.Name
/-!
Where sources live and where their artifacts go. The source of a definition follows from its name:

    modules/ntp/manifests/init.pp           class ntp
    modules/ntp/manifests/server/pool.pp    class ntp::server::pool
    modules/ntp/functions/servers.pp        function ntp::servers

An artifact has the path of its source below the module tree, with another extension.
-/
namespace Cascade.Build

def sourceExtension : String := "pp"
def artifactExtension : String := "json"

structure Layout where
  modules : String
  cache : String
  deriving DecidableEq, Inhabited

namespace Layout

/-- The artifact of a source; `none` outside the module tree. -/
def artifactFor? (l : Layout) (source : String) : Option String :=
  (Path.stripBase? l.modules source).map fun rest =>
    Path.withExtension artifactExtension (Path.join l.cache rest)

def isSafeSegment (segment : String) : Bool :=
  !segment.isEmpty && !segment.toList.any fun c => c = '/' || c = '\\' || c = '.'

/-- The lower-case segments of a name, if each of them can be the name of a file. -/
def segments? (name : String) : Option (List String) :=
  let segments := (Name.segments name).map Name.foldCase
  if segments.all isSafeSegment then some segments else none

def sourceAt (l : Layout) (module : String) (kind : String) (rest : List String) : String :=
  Path.withExtension sourceExtension
    (rest.foldl Path.join (Path.join (Path.join l.modules module) kind))

def classSource? (l : Layout) (name : String) : Option String :=
  match segments? name with
  | none | some [] => none
  | some [module] => some (l.sourceAt module "manifests" ["init"])
  | some (module :: rest) => some (l.sourceAt module "manifests" rest)

/-- Functions always belong to a module. -/
def functionSource? (l : Layout) (name : String) : Option String :=
  match segments? name with
  | some (module :: part :: rest) => some (l.sourceAt module "functions" (part :: rest))
  | _ => none

end Layout
end Cascade.Build
