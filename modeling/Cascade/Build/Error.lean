import Cascade.Decimal.Layout
import Cascade.Files.Basic
/-!
What can go wrong in a build.
-/
namespace Cascade

inductive BuildError
  | io (path : String) (cause : IoError)
  | outsideModules (path : String)
  | compiler (program message : String)
  /-- A batch that did not make all of its artifacts. -/
  | batch (number : Nat) (cause : BuildError)
  deriving DecidableEq, Inhabited

def BuildError.message : BuildError → String
  | io path cause => "failed to access " ++ path ++ ": " ++ cause.message
  | outsideModules path => path ++ " is not under the module tree"
  | compiler program message => "compiler '" ++ program ++ "' failed: " ++ message
  | batch number cause => "batch " ++ Decimal.digitText number ++ " failed: " ++ cause.message

/-- A word for programs that read answers. -/
def BuildError.kind : BuildError → String
  | io .. => "Io"
  | outsideModules _ => "OutsideModules"
  | compiler .. => "Compiler"
  | batch .. => "Compile"

end Cascade
