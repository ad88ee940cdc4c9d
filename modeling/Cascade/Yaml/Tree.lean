import Cascade.Yaml.Token
/-!
The tree of a YAML document: scalars, sequences and mappings as they are written, with their anchors
and tags, before any of them means anything. A stream may hold one document at most.
-/
namespace Cascade.Yaml

inductive Tag
  /-- A tag of the document's own, without its `!`. -/
  | own (name : String)
  | global (name : String)
  /-- A tag of the document's own that is no text. -/
  | illegible
  deriving DecidableEq

structure Properties where
  anchor : Option String
  tag : Option Tag

def Properties.none : Properties := ⟨Option.none, Option.none⟩

inductive Tree
  | scalar (properties : Properties) (text : String) (style : ScalarStyle)
  | sequence (properties : Properties) (items : List Tree)
  | mapping (properties : Properties) (entries : List (Tree × Tree))
  | reference (name : String)

namespace Tree

/-- A node that is not written at all. -/
def missing : Tree := scalar .none "" .plain

def isReference : Tree → Bool
  | reference _ => true
  | _ => false

/-- What the handles of tags stand for. -/
abbrev Handles := Table String (List UInt8)

def Handles.standard : Handles :=
  [("!", bareTag), ("!!", "tag:yaml.org,2002:".toUTF8.toList)]

abbrev Tokens := List Token

abbrev Parse := Except YamlError

def textOf? (bytes : List UInt8) : Option String := String.fromUTF8? ⟨bytes.toArray⟩

/-- Takes one `!` away from a name, unless nothing else is there. -/
def dropMark (name : String) : String :=
  match name.toList with
  | '!' :: c :: rest => String.ofList (c :: rest)
  | _ => name

/-- What a tag says. A second `!` at the start of a name counts no more than the first. -/
def tagOf (bytes : List UInt8) : Tag :=
  if bytes.head? = bareTag.head? then
    match textOf? bytes with
    | some name => .own (dropMark (dropMark name))
    | none => .illegible
  else .global ((textOf? bytes).getD "")

def resolveTag (handles : Handles) (handle : String) (suffix : List UInt8) : Except YamlError Tag :=
  if handle.isEmpty then .ok (tagOf suffix)
  else match handles.get? handle with
    | some lead => .ok (tagOf (lead ++ suffix))
    | none => .error (.undefinedTagHandle handle)

/-- An anchor and a tag, in either order. -/
def properties (handles : Handles) : Tokens → Parse (Properties × Tokens)
  | .anchor name :: .tag handle suffix :: ts | .tag handle suffix :: .anchor name :: ts => do
    return (⟨some name, some (← resolveTag handles handle suffix)⟩, ts)
  | .anchor name :: ts => .ok (⟨some name, none⟩, ts)
  | .tag handle suffix :: ts => do return (⟨none, some (← resolveTag handles handle suffix)⟩, ts)
  | ts => .ok (.none, ts)

/-- Whether a block collection goes on here instead of with a node. -/
def endsBlockNode : Tokens → Bool
  | .entry :: _ | .key :: _ | .value :: _ | .blockEnd :: _ => true
  | _ => false

def endsItem : Tokens → Bool
  | .entry :: _ | .blockEnd :: _ => true
  | _ => false

def endsPart : Tokens → Bool
  | .key :: _ | .value :: _ | .blockEnd :: _ => true
  | _ => false

def endsFlowPart (closing : Token) : Tokens → Bool
  | t :: _ => t = .value || t = .comma || t = closing
  | [] => false

/-- An anchor or a tag may stand for an empty node. -/
def unwritten (p : Properties) (ts : Tokens) : Parse (Tree × Tokens) :=
  if p.anchor.isSome || p.tag.isSome then .ok (scalar p "" .plain, ts)
  else .error (.unexpectedToken "node content")

mutual

/-- One node. `block` admits block collections, `indentless` a sequence that shares the column of the
mapping around it. -/
def node (handles : Handles) (block indentless : Bool) : (fuel : Nat) → Tokens → Parse (Tree × Tokens)
  | 0, _ => .error .tooDeep
  | _ + 1, .reference name :: ts => .ok (reference name, ts)
  | fuel + 1, ts => do
    let (p, ts) ← properties handles ts
    match ts with
    | .entry :: _ =>
      if indentless then do
        let (items, ts) ← indentlessItems handles fuel ts
        return (sequence p items, ts)
      else unwritten p ts
    | .scalar text style :: ts => return (scalar p text style, ts)
    | .openSequence :: ts => do
      let (items, ts) ← flowItems handles true fuel ts
      return (sequence p items, ts)
    | .openMapping :: ts => do
      let (entries, ts) ← flowEntries handles true fuel ts
      return (mapping p entries, ts)
    | .blockSequence :: rest =>
      if block then do
        let (items, ts) ← blockItems handles fuel rest
        return (sequence p items, ts)
      else unwritten p ts
    | .blockMapping :: rest =>
      if block then do
        let (entries, ts) ← blockEntries handles fuel rest
        return (mapping p entries, ts)
      else unwritten p ts
    | ts => unwritten p ts

def blockItems (handles : Handles) : (fuel : Nat) → Tokens → Parse (List Tree × Tokens)
  | 0, _ => .error .tooDeep
  | fuel + 1, .entry :: ts => do
    let (item, ts) ← if endsItem ts then pure (missing, ts) else node handles true false fuel ts
    let (items, ts) ← blockItems handles fuel ts
    return (item :: items, ts)
  | _ + 1, .blockEnd :: ts => .ok ([], ts)
  | _ + 1, _ => .error (.unexpectedToken "'-' indicator")

def indentlessItems (handles : Handles) : (fuel : Nat) → Tokens → Parse (List Tree × Tokens)
  | 0, _ => .error .tooDeep
  | fuel + 1, .entry :: ts => do
    let (item, ts) ← if endsBlockNode ts then pure (missing, ts) else node handles true false fuel ts
    let (items, ts) ← indentlessItems handles fuel ts
    return (item :: items, ts)
  | _ + 1, ts => .ok ([], ts)

def blockPart (handles : Handles) : (fuel : Nat) → Tokens → Parse (Tree × Tokens)
  | 0, _ => .error .tooDeep
  | fuel + 1, ts => if endsPart ts then .ok (missing, ts) else node handles true true fuel ts

def blockEntries (handles : Handles) : (fuel : Nat) → Tokens → Parse (List (Tree × Tree) × Tokens)
  | 0, _ => .error .tooDeep
  | fuel + 1, .key :: ts => do
    let (k, ts) ← blockPart handles fuel ts
    let (v, ts) ← match ts with
      | .value :: ts => blockPart handles fuel ts
      | ts => pure (missing, ts)
    let (entries, ts) ← blockEntries handles fuel ts
    return ((k, v) :: entries, ts)
  | _ + 1, .blockEnd :: ts => .ok ([], ts)
  | _ + 1, _ => .error (.unexpectedToken "key")

/-- The value of a pair inside flow collections. -/
def flowValue (handles : Handles) (closing : Token) : (fuel : Nat) → Tokens → Parse (Tree × Tokens)
  | 0, _ => .error .tooDeep
  | fuel + 1, .value :: ts =>
    match ts with
    | t :: _ =>
      if t = .comma || t = closing then .ok (missing, ts) else node handles false false fuel ts
    | [] => node handles false false fuel ts
  | _ + 1, ts => .ok (missing, ts)

/-- A pair inside a flow sequence. Where its key is not written, the token after `?` goes with it. -/
def flowPair (handles : Handles) : (fuel : Nat) → Tokens → Parse (Tree × Tokens)
  | 0, _ => .error .tooDeep
  | fuel + 1, ts => do
    let (k, ts) ← if endsFlowPart .closeSequence ts then pure (missing, ts.drop 1)
      else node handles false false fuel ts
    let (v, ts) ← flowValue handles .closeSequence fuel ts
    return (mapping .none [(k, v)], ts)

def flowItems (handles : Handles) (first : Bool) : (fuel : Nat) → Tokens → Parse (List Tree × Tokens)
  | 0, _ => .error .tooDeep
  | _ + 1, .closeSequence :: ts => .ok ([], ts)
  | fuel + 1, ts => do
    let ts ← if first then pure ts else match ts with
      | .comma :: ts => pure ts
      | _ => throw (.unexpectedToken "',' or ']'")
    match ts with
    | .closeSequence :: ts => return ([], ts)
    | .key :: ts => do
      let (item, ts) ← flowPair handles fuel ts
      let (items, ts) ← flowItems handles false fuel ts
      return (item :: items, ts)
    | ts => do
      let (item, ts) ← node handles false false fuel ts
      let (items, ts) ← flowItems handles false fuel ts
      return (item :: items, ts)

def flowEntries (handles : Handles) (first : Bool) : (fuel : Nat) → Tokens →
    Parse (List (Tree × Tree) × Tokens)
  | 0, _ => .error .tooDeep
  | _ + 1, .closeMapping :: ts => .ok ([], ts)
  | fuel + 1, ts => do
    let ts ← if first then pure ts else match ts with
      | .comma :: ts => pure ts
      | _ => throw (.unexpectedToken "',' or '\x7d'")
    match ts with
    | .closeMapping :: ts => return ([], ts)
    | .key :: ts => do
      let (k, ts) ← if endsFlowPart .closeMapping ts then pure (missing, ts)
        else node handles false false fuel ts
      let (v, ts) ← flowValue handles .closeMapping fuel ts
      let (entries, ts) ← flowEntries handles false fuel ts
      return ((k, v) :: entries, ts)
    | ts => do
      let (k, ts) ← node handles false false fuel ts
      let (entries, ts) ← flowEntries handles false fuel ts
      return ((k, missing) :: entries, ts)

end

structure Directives where
  version : Bool
  handles : Handles

/-- The directives before a document: one version at most, and no handle twice. -/
def directives (d : Directives) : Tokens → Parse (Directives × Tokens)
  | .version major minor :: ts =>
    if d.version || major ≠ 1 || !(minor = 1 || minor = 2) then .error .malformedDirective
    else directives { d with version := true } ts
  | .tagDirective handle lead :: ts =>
    if d.handles.contains handle then .error .malformedDirective
    else directives { d with handles := d.handles.set handle lead } ts
  | ts => .ok (d, ts)

def isDocumentEdge : Tokens → Bool
  | .version .. :: _ | .tagDirective .. :: _ | .documentStart :: _ | .documentEnd :: _
  | .streamEnd :: _ => true
  | _ => false

def startsWithDirective : Tokens → Bool
  | .version .. :: _ | .tagDirective .. :: _ => true
  | _ => false

/-- After the document only its end marks may follow. -/
def finish (tree : Tree) (ts : Tokens) : Except YamlError (Option Tree) :=
  match ts.dropWhile (· = .documentEnd) with
  | [.streamEnd] => .ok (some tree)
  | _ => .error .severalDocuments

/-- The one document of a stream; `none` if the stream is empty. -/
def ofTokens (ts : Tokens) : Except YamlError (Option Tree) := do
  match ts with
  | [.streamEnd] => return none
  | _ => do
    let (d, rest) ← directives ⟨false, []⟩ ts
    let handles := d.handles ++ Handles.standard
    let fuel := 2 * ts.length + 2
    match rest with
    | .documentStart :: rest =>
      if isDocumentEdge rest then finish missing rest
      else
        let (tree, rest) ← node handles true false fuel rest
        finish tree rest
    | rest =>
      if startsWithDirective ts then throw (.unexpectedToken "<document start>")
      let (tree, rest) ← node handles true false fuel rest
      finish tree rest

end Tree
end Cascade.Yaml
