import Cascade.Text.Blank
/-!
The command line of a compiler: a program and its arguments, separated by blanks. There is no
quoting, and a blank line is no command.
-/
namespace Cascade.Build

structure CommandLine where
  program : String
  args : List String
  deriving DecidableEq, Inhabited

def CommandLine.ofText? (line : String) : Option CommandLine :=
  match (Text.words line.toList).map String.ofList with
  | [] => none
  | program :: args => some ⟨program, args⟩

end Cascade.Build
