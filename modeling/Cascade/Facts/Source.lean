import Cascade.Facts.Identity
import Cascade.Files.Basic
import Cascade.Json.Parser
import Cascade.Value.Json
/-!
Where the facts of nodes come from: files `<certname>.json` in a directory, or a table in memory. A
file holds an object of facts, or an object with the facts under `values`. A node without a file has no
facts.
-/
namespace Cascade

/-- Something that went wrong and is reported under a title, often without stopping anything. -/
structure Notice where
  title : String
  message : String
  deriving DecidableEq, Inhabited

def Notice.text (n : Notice) : String := n.title ++ ": " ++ n.message

inductive FactSource
  | directory (path : String)
  | memory (nodes : Table String Facts)

namespace FactSource

def malformed : String := "Malformed facts"

/-- The object that holds the facts. -/
def factsIn (j : Json) : Json :=
  match j.get? "values" with
  | some (.object members) => .object members
  | _ => j

def ofText (path text : String) : Except Notice Facts :=
  match Json.parse text with
  | .error e => .error ⟨malformed, path ++ ": " ++ e.message⟩
  | .ok j =>
    match Value.ofJson (factsIn j) with
    | .hash facts => .ok facts
    | _ => .error ⟨malformed, path ++ " is not an object"⟩

def get (s : FactSource) (files : Files) (certname : String) : Except Notice Facts :=
  match s with
  | memory nodes => .ok ((nodes.get? certname).getD [])
  | directory dir =>
    let path := Path.join dir (certname ++ ".json")
    match files.readOptional path with
    | .error e => .error ⟨"Unable to read facts", e.message⟩
    | .ok none => .ok []
    | .ok (some text) => ofText path text

end FactSource
end Cascade
