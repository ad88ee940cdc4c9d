import Cascade.Facts.Identity
import Cascade.Hierarchy.Error
import Cascade.Json.Parser
import Cascade.Text.Blank
import Cascade.Value.Yaml
import Cascade.Yaml.Printer
import Cascade.Yaml.Reader
/-!
Data files. A data file is a mapping of keys to values behind a header of comment lines, which is kept
as it is. Header lines of the form `# key = <json>` set facts of the node:

    # role = "db"
    ntp::servers:
    - 0.pool.ntp.org
-/
namespace Cascade

structure DataFile where
  path : String
  header : String
  data : Table String Value
  deriving Inhabited

namespace DataFile

def empty (path : String) : DataFile := ⟨path, "", []⟩

def isComment (line : List Char) : Bool := (Text.trimStart line).head? == some '#'

/-- The comment lines that a text starts with. -/
def headerLines (text : String) : List (List Char) :=
  (Text.lines text.toList).takeWhile isComment

def headerOf (text : String) : String :=
  String.ofList ((headerLines text).flatMap (· ++ ['\n']))

def dataOf (v : Yaml) : Except SourceFlaw (Table String Value) :=
  match v with
  | .null => .ok []
  | .mapping entries => .ok (Table.ofList (Value.ofYamlEntries entries))
  | other => .error (.notAMapping other.describe)

def parse (path text : String) : Except HierarchyError DataFile :=
  match Yaml.parse text with
  | .error e => .error (.source path (.yaml e))
  | .ok v => match dataOf v with
    | .error flaw => .error (.source path flaw)
    | .ok data => .ok ⟨path, headerOf text, data⟩

/-- Reads the file at a path; `none` when there is no file. -/
def «open» (files : Files) (path : String) : Except HierarchyError (Option DataFile) :=
  match files.readOptional path with
  | .error e => .error (.io path e)
  | .ok none => .ok none
  | .ok (some text) => (parse path text).map some

def get? (f : DataFile) (key : String) : Option Value := Table.get? f.data key

def set (f : DataFile) (key : String) (v : Value) : DataFile :=
  { f with data := Table.set f.data key v }

def erase (f : DataFile) (key : String) : DataFile := { f with data := Table.erase f.data key }

def body (data : Table String Value) : String :=
  if data.isEmpty then "" else Yaml.print (.mapping (Value.toYamlEntries data))

/-- The text of the file: its header and its data. -/
def text (f : DataFile) : String := f.header ++ body f.data

def makeParent (files : Files) (path : String) : Except HierarchyError Files :=
  match Path.parent? path with
  | none => .ok files
  | some parent => match files.makeDirectories parent with
    | .error e => .error (.io parent e)
    | .ok files => .ok files

/-- Writes the file and the directories it needs. -/
def save (f : DataFile) (files : Files) : Except HierarchyError Files := do
  let files ← makeParent files f.path
  match files.write f.path (.text f.text) with
  | .error e => .error (.io f.path e)
  | .ok files => .ok files

/-- The fact that a header line sets. -/
def factOf? (line : List Char) : Option (String × Value) := do
  let line := Text.trim ((Text.trimStart line).dropWhile (· = '#'))
  let (key, literal) ← Text.splitOnce ['='] line
  let key := Text.trim key
  if key.isEmpty || key.any Text.isBlank then none
  else match Json.parse (String.ofList (Text.trim literal)) with
    | .ok j => some (String.ofList key, .ofJson j)
    | .error _ => none

def factOverrides (f : DataFile) : Facts :=
  Table.ofList ((Text.lines f.header.toList).filterMap factOf?)

/-- Whether two copies of a file agree; the order of keys does not matter. -/
def same (a b : DataFile) : Bool :=
  a.path == b.path && a.header == b.header &&
    (Value.hash a.data).same (Value.hash b.data)

end DataFile
end Cascade
