import Cascade.Decimal.Count
import Cascade.Hierarchy.Error
import Cascade.Text.Blank
import Cascade.Yaml.Reader
/-!
Hierarchy documents: which data files a node has, the first of them being the most important. Two
versions of the document are read, and keys may carry a leading `:` in both.

    version: 5                                    :hierarchy:
    hierarchy:                                      - "nodes/%{certname}"
      - name: "Per-node data"                       - common
        path: "nodes/%{trusted.certname}.yaml"    :yaml:
      - common.yaml                                 :datadir: hieradata
-/
namespace Cascade

/-- The keys of an encrypted level. -/
structure KeyPaths where
  publicKey : String
  privateKey : Option String
  deriving DecidableEq, Inhabited

/-- A level as the document gives it: its path is still a template. -/
structure Level where
  name : String
  template : String
  datadir : Option String
  keys : Option KeyPaths
  deriving DecidableEq, Inhabited

structure Hierarchy where
  version : Nat
  datadir : String
  keys : Option KeyPaths
  levels : List Level
  deriving DecidableEq, Inhabited

namespace Hierarchy

/-- The hierarchy of an environment without a document. -/
def standard (root : String) : Hierarchy :=
  { version := 5
    datadir := Path.join root "data"
    keys := none
    levels := [⟨"Per-node data", "nodes/%\x7btrusted.certname\x7d.yaml", none, none⟩,
      ⟨"Common data", "common.yaml", none, none⟩] }

def stripColon (key : Yaml) : Yaml :=
  match key with
  | .string s => match s.toList with
    | ':' :: rest => .string (String.ofList rest)
    | _ => key
  | _ => key

/-- Puts an entry into a mapping; a key that is there keeps its place and gets the new value. -/
def putEntry (k v : Yaml) : List (Yaml × Yaml) → List (Yaml × Yaml)
  | [] => [(k, v)]
  | (l, w) :: es => if l.same k then (l, v) :: es else (l, w) :: putEntry k v es

mutual
def stripColons : Yaml → Yaml
  | .mapping entries =>
    .mapping ((stripEntries entries).foldl (fun done e => putEntry e.1 e.2 done) [])
  | .sequence items => .sequence (stripItems items)
  | v => v

def stripItems : List Yaml → List Yaml
  | [] => []
  | v :: vs => stripColons v :: stripItems vs

def stripEntries : List (Yaml × Yaml) → List (Yaml × Yaml)
  | [] => []
  | (k, v) :: es => (stripColon k, stripColons v) :: stripEntries es
end

/-- The text at the end of a path of keys. -/
def text? (v : Yaml) (path : List String) : Option String := (v.path? path).bind Yaml.asString?

/-- The keys that an options mapping names; without a public key there is no encryption. -/
def keysOf (root : String) (options : Option Yaml) : Option KeyPaths :=
  options.bind fun options =>
    (text? options ["pkcs7_public_key"]).map fun publicKey =>
      ⟨Path.join root publicKey, (text? options ["pkcs7_private_key"]).map (Path.join root)⟩

def textsOf (v : Option Yaml) : List String :=
  match v with
  | some (.sequence items) => items.filterMap Yaml.asString?
  | _ => []

/-- The levels of one item of the list, one for each of its paths. -/
def levelsOf (root : String) (item : Yaml) : Except DocumentFlaw (List Level) :=
  match item with
  | .string path => .ok [⟨path, path, none, none⟩]
  | .mapping _ =>
    let name := (text? item ["name"]).getD ""
    let datadir := (text? item ["datadir"]).map (Path.join root)
    let keys := keysOf root (item.get? "options")
    let paths := (text? item ["path"]).toList ++ textsOf (item.get? "paths")
    .ok (paths.map fun path => ⟨if name.isEmpty then path else name, path, datadir, keys⟩)
  | other => .error (.unexpectedLevel other.inspect)

def ofVersion5 (root : String) (doc : Yaml) : Except DocumentFlaw Hierarchy := do
  let items ← match doc.get? "hierarchy" with
    | some (.sequence items) => pure items
    | some _ => throw .levelsNotAList
    | none => pure []
  let levels ← items.mapM (levelsOf root)
  return { version := 5
           datadir := Path.join root ((text? doc ["defaults", "datadir"]).getD "data")
           keys := keysOf root (doc.path? ["defaults", "options"])
           levels := levels.flatten }

/-- Only the text after the last reference can carry an extension. -/
def hasExtension (template : String) : Bool :=
  let tail := match Text.rsplitOnce ['}'] template.toList with
    | some (_, tail) => tail
    | none => template.toList
  (Path.extension? (String.ofList tail)).isSome

def ofVersion3 (root : String) (doc : Yaml) : Hierarchy :=
  let templates := match doc.get? "hierarchy" with
    | some (.string single) => [single]
    | other => textsOf other
  { version := 3
    datadir := Path.join root
      ((text? doc ["yaml", "datadir"] <|> text? doc ["eyaml", "datadir"]).getD "hieradata")
    keys := keysOf root (doc.get? "eyaml")
    levels := templates.map fun template =>
      ⟨template, if hasExtension template then template else template ++ ".yaml", none, none⟩ }

/-- The version a document claims; 3 if it says nothing, 0 if it says nothing sensible. -/
def versionOf (doc : Yaml) : Nat :=
  match doc.get? "version" with
  | none => 3
  | some (.integer n) => n.toNat
  | some (.string s) => (Decimal.readCount? (Text.trim s.toList)).getD 0
  | some _ => 0

def ofYaml (root : String) (v : Yaml) : Except DocumentFlaw Hierarchy :=
  match stripColons v with
  | .mapping entries =>
    match versionOf (.mapping entries) with
    | 3 => .ok (ofVersion3 root (.mapping entries))
    | 5 => ofVersion5 root (.mapping entries)
    | other => .error (.unsupportedVersion other)
  | _ => .error .notAMapping

/-- Reads a document; relative directories are taken from `root`. -/
def parse (text root : String) : Except HierarchyError Hierarchy :=
  match Yaml.parse text with
  | .error e => .error (.document (.yaml e))
  | .ok v => match ofYaml root v with
    | .error flaw => .error (.document flaw)
    | .ok h => .ok h

/-- Reads the document at a path; `none` when there is no file. -/
def load (files : Files) (path root : String) : Except HierarchyError (Option Hierarchy) :=
  match files.readOptional path with
  | .error e => .error (.io path e)
  | .ok none => .ok none
  | .ok (some text) => (parse text root).map some

end Hierarchy
end Cascade
