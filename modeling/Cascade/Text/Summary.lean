import Cascade.Text.Quoted
/-!
One line about a thing for diagnostics: `Job { name: "a", parts: 2, .. }`. The dots say that there is
more to it.
-/
namespace Cascade.Text

def summary (name : String) (fields : List (String × String)) : String :=
  name ++ " \x7b " ++ String.join (fields.map fun f => f.1 ++ ": " ++ f.2 ++ ", ") ++ ".. \x7d"

end Cascade.Text
