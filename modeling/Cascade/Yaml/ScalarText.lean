import Cascade.Yaml.Cursor
import Cascade.Yaml.Error
import Cascade.Yaml.Plain
/-!
The texts of scalars in their four spellings: plain, single-quoted, double-quoted and block. Inside a
flowing scalar one line end counts as a blank and more of them as one line end less; a block scalar
keeps its lines (`|`) or joins them (`>`) and says what becomes of the line ends at its end.
-/
namespace Cascade.Yaml

/-- Blanks read between two words of a flowing scalar. -/
structure Spacing where
  gaps : List Char
  /-- A line end has been passed. -/
  broken : Bool
  first : List Char
  more : List Char

namespace Spacing

def none : Spacing := ⟨[], false, [], []⟩

/-- What the blanks between two words are worth. -/
def joined (s : Spacing) : List Char :=
  if s.broken then
    if s.first.head? = some '\n' then if s.more.isEmpty then [' '] else s.more
    else s.first ++ s.more
  else s.gaps

end Spacing

/-- Reads blanks and line ends; within `indent` columns a new line may not hold tabs. -/
def readSpacing (indent : Nat) : (fuel : Nat) → Spacing → Cursor →
    Except YamlError (Spacing × Cursor)
  | 0, s, c => .ok (s, c)
  | fuel + 1, s, c =>
    match c.peek with
    | some x =>
      if isGap x then
        if s.broken && c.column < indent && x = '\t' then .error .tabIndentation
        else readSpacing indent fuel
          (if s.broken then s else { s with gaps := s.gaps ++ [x] }) (c.skip 1)
      else if isBreak x then
        let (text, c) := c.takeBreak
        readSpacing indent fuel
          (if s.broken then { s with more := s.more ++ text }
            else { s with broken := true, first := text }) c
      else .ok (s, c)
    | Option.none => .ok (s, c)

def spacing (indent : Nat) (s : Spacing) (c : Cursor) : Except YamlError (Spacing × Cursor) :=
  readSpacing indent (c.rest.length + 1) s c

/-! Plain scalars. -/

def isFlowMark (c : Char) : Bool := c = ',' || c = '[' || c = ']' || c = '{' || c = '}'

/-- The characters of a word of a plain scalar. -/
def plainWord (inFlow : Bool) : List Char → Except YamlError (List Char)
  | [] => .ok []
  | x :: rest =>
    if isGap x || isBreak x then .ok []
    else if inFlow && x = ':' && rest.head?.any (fun y => isFlowMark y || y = '?') then
      .error .ambiguousColon
    else if x = ':' && isOpen rest || inFlow && isFlowMark x then .ok []
    else do return x :: (← plainWord inFlow rest)

structure PlainText where
  text : List Char
  /-- The scalar was followed by a line end. -/
  broken : Bool
  after : Cursor

/-- Reads on from a word's start; `lead` is what joins that word to the text before it. -/
def readPlain (inFlow : Bool) (indent : Nat) : (fuel : Nat) → (text : List Char) → (lead : Spacing) →
    Cursor → Except YamlError PlainText
  | 0, text, lead, c => .ok ⟨text, lead.broken, c⟩
  | fuel + 1, text, lead, c =>
    if c.atDocumentMark || c.looksAt '#' then .ok ⟨text, lead.broken, c⟩
    else do
      let word ← plainWord inFlow c.rest
      let after := c.skip word.length
      let text := if word.isEmpty then text else text ++ lead.joined ++ word
      let lead := if word.isEmpty then lead else Spacing.none
      if !(after.atGap || after.atBreak) then return ⟨text, lead.broken, after⟩
      let (next, after) ← spacing indent lead after
      if !inFlow && after.column < indent then return ⟨text, next.broken, after⟩
      readPlain inFlow indent fuel text next after

def plainText (inFlow : Bool) (indent : Nat) (c : Cursor) : Except YamlError PlainText :=
  readPlain inFlow indent (c.rest.length + 1) [] Spacing.none c

/-! Quoted scalars. -/

def hexEscape (n : Nat) (c : Cursor) : Except YamlError (List Char × Cursor) :=
  let ds := c.rest.take n
  if ds.length < n then .error .malformedEscape
  else match digits? 16 ds with
    | Option.none => .error .malformedEscape
    | some code =>
      if code.isValidChar then .ok ([Char.ofNat code], c.skip n)
      else .error .malformedEscape

/-- What follows a backslash. -/
def escape (c : Cursor) : Except YamlError (List Char × Cursor) :=
  let one (x : Nat) : Except YamlError (List Char × Cursor) := .ok ([Char.ofNat x], c.skip 1)
  match c.peek with
  | some '0' => one 0
  | some 'a' => one 7
  | some 'b' => one 8
  | some 't' | some '\t' => one 9
  | some 'n' => one 10
  | some 'v' => one 11
  | some 'f' => one 12
  | some 'r' => one 13
  | some 'e' => one 27
  | some ' ' => one 32
  | some '"' => one 34
  | some '/' => one 47
  | some '\\' => one 92
  | some 'N' => one 0x85
  | some '_' => one 0xa0
  | some 'L' => one 0x2028
  | some 'P' => one 0x2029
  | some 'x' => hexEscape 2 (c.skip 1)
  | some 'u' => hexEscape 4 (c.skip 1)
  | some 'U' => hexEscape 8 (c.skip 1)
  | _ => .error .malformedEscape

/-- Reads up to a blank, the closing quote or an escaped line end, which `true` reports. -/
def quotedWord (quote : Char) : (fuel : Nat) → Cursor → Except YamlError (List Char × Bool × Cursor)
  | 0, c => .ok ([], false, c)
  | fuel + 1, c =>
    match c.rest with
    | [] => .ok ([], false, c)
    | x :: rest =>
      if isGap x || isBreak x then .ok ([], false, c)
      else if quote = '\'' && x = '\'' && rest.head? = some '\'' then do
        let (text, broken, c) ← quotedWord quote fuel (c.skip 2)
        return ('\'' :: text, broken, c)
      else if x = quote then .ok ([], false, c)
      else if quote = '"' && x = '\\' then
        if rest.head?.any isBreak then .ok ([], true, (c.skip 1).takeBreak.2)
        else do
          let (lead, c) ← escape (c.skip 1)
          let (text, broken, c) ← quotedWord quote fuel c
          return (lead ++ text, broken, c)
      else do
        let (text, broken, c) ← quotedWord quote fuel (c.skip 1)
        return (x :: text, broken, c)

def readQuoted (quote : Char) : (fuel : Nat) → (text : List Char) → Cursor →
    Except YamlError (List Char × Cursor)
  | 0, _, _ => .error .unclosedQuote
  | fuel + 1, text, c =>
    if c.atDocumentMark || c.atEnd then .error .unclosedQuote
    else do
      let (word, broken, c) ← quotedWord quote (c.rest.length + 1) c
      let text := text ++ word
      if c.looksAt quote then return (text, c.skip 1)
      let (space, c) ← spacing 0 { Spacing.none with broken } c
      readQuoted quote fuel (text ++ space.joined) c

/-- The text of a quoted scalar whose opening quote is under the cursor. -/
def quotedText (quote : Char) (c : Cursor) : Except YamlError (List Char × Cursor) :=
  readQuoted quote (c.rest.length + 1) [] (c.skip 1)

/-! Block scalars. -/

inductive Chomping
  | strip
  | clip
  | keep
  deriving DecidableEq

structure BlockHeader where
  chomping : Chomping
  /-- The indentation asked for, relative to the block around. -/
  indent : Option Nat

def chomping? (c : Cursor) : Option Chomping :=
  if c.looksAt '+' then some .keep else if c.looksAt '-' then some .strip else none

/-- An indentation digit, which is not 0. -/
def indentDigit (c : Cursor) : Except YamlError (Option Nat × Cursor) :=
  match c.peek with
  | some x =>
    if x = '0' then .error .malformedBlockHeader
    else if x.isDigit then .ok (some (x.toNat - '0'.toNat), c.skip 1)
    else .ok (none, c)
  | Option.none => .ok (none, c)

def blockHeader (c : Cursor) : Except YamlError (BlockHeader × Cursor) := do
  match chomping? c with
  | some chomping =>
    let (indent, c) ← indentDigit (c.skip 1)
    return (⟨chomping, indent⟩, c)
  | Option.none =>
    let (indent, c) ← indentDigit c
    match indent with
    | Option.none => return (⟨.clip, none⟩, c)
    | some _ => match chomping? c with
      | some chomping => return (⟨chomping, indent⟩, c.skip 1)
      | Option.none => return (⟨.clip, indent⟩, c)

/-- Reads the empty lines before a line of a block scalar. Without a known indentation the deepest of
these lines counts. -/
def blockBreaks (indent : Option Nat) : (fuel : Nat) → (breaks : List Char) → (deepest : Nat) → Cursor →
    Except YamlError (List Char × Nat × Cursor)
  | 0, breaks, deepest, c => .ok (breaks, deepest, c)
  | fuel + 1, breaks, deepest, c =>
    let spaces := c.rest.takeWhile (· = ' ')
    let c := c.skip (match indent with
      | some n => min spaces.length (n - c.column)
      | Option.none => spaces.length)
    let deepest := max deepest c.column
    if c.looksAt '\t' && indent.all (c.column < ·) then .error .tabIndentation
    else if c.atBreak then
      let (text, c) := c.takeBreak
      blockBreaks indent fuel (breaks ++ text) deepest c
    else .ok (breaks, deepest, c)

structure BlockState where
  text : List Char
  /-- The line end after the last line. -/
  ending : List Char
  /-- The empty lines after it. -/
  breaks : List Char
  /-- The last line started with a blank. -/
  indented : Bool

def readBlock (literal : Bool) (indent : Nat) : (fuel : Nat) → BlockState → Cursor →
    Except YamlError (BlockState × Cursor)
  | 0, s, c => .ok (s, c)
  | fuel + 1, s, c =>
    if c.column ≠ indent || c.atEnd then .ok (s, c)
    else do
      let indented := c.atGap
      let lead :=
        if !literal && s.ending.head? = some '\n' && !s.indented && !indented then
          if s.breaks.isEmpty then [' '] else s.breaks
        else s.ending ++ s.breaks
      let (line, c) := c.takeWhile fun x => !isBreak x
      let (ending, c) := c.takeBreak
      let (breaks, _, c) ← blockBreaks (some indent) (c.rest.length + 1) [] 0 c
      readBlock literal indent fuel ⟨s.text ++ lead ++ line, ending, breaks, indented⟩ c

/-- The text of a block scalar whose indicator is under the cursor, in a block indented by
`outer`. -/
def blockText (literal : Bool) (outer : Int) (c : Cursor) : Except YamlError (List Char × Cursor) := do
  let (header, c) ← blockHeader (c.skip 1)
  let c := c.skipGaps.skipComment
  if !(c.atEnd || c.atBreak) then throw .malformedBlockHeader
  let c := c.takeBreak.2
  let asked := header.indent.map fun n => (max outer 0).toNat + n
  let (breaks, deepest, c) ← blockBreaks asked (c.rest.length + 1) [] 0 c
  let indent := asked.getD (max deepest (max (outer + 1) 1).toNat)
  let (s, c) ← readBlock literal indent (c.rest.length + 1) ⟨[], [], breaks, false⟩ c
  let tail := match header.chomping with
    | .strip => []
    | .clip => s.ending
    | .keep => s.ending ++ s.breaks
  return (s.text ++ tail, c)

end Cascade.Yaml
