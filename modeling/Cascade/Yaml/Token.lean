import Cascade.Yaml.ScalarText
/-!
Tokens of a YAML text. Indentation opens and closes block collections, so it has tokens of its own.
Whether something was the key of a mapping shows only at the `:` after it: `Lexer` remembers where a
key could have begun and puts the missing tokens in there.
-/
namespace Cascade.Yaml

inductive ScalarStyle
  | plain
  | quoted
  | block
  deriving DecidableEq

inductive Token
  | version (major minor : Nat)
  | tagDirective (handle : String) (lead : List UInt8)
  | documentStart
  | documentEnd
  | blockSequence
  | blockMapping
  | blockEnd
  | openSequence
  | closeSequence
  | openMapping
  | closeMapping
  | entry
  | comma
  | key
  | value
  | reference (name : String)
  | anchor (name : String)
  | tag (handle : String) (suffix : List UInt8)
  | scalar (text : String) (style : ScalarStyle)
  | streamEnd
  deriving DecidableEq

/-- The tag that is nothing but a `!`. -/
def bareTag : List UInt8 := "!".toUTF8.toList

/-- A place where a key may have begun. -/
structure KeyCandidate where
  /-- How many tokens stand before it. -/
  position : Nat
  index : Nat
  line : Nat
  column : Nat
  /-- Nothing else can begin at this column. -/
  required : Bool

structure Lexer where
  cursor : Cursor
  /-- Tokens so far, the last one first. -/
  tokens : List Token
  count : Nat
  /-- The column of the innermost block collection, -1 outside of all. -/
  indent : Int
  /-- The columns of the collections around it. -/
  outer : List Int
  keyAllowed : Bool
  /-- The candidate on each level of flow collections, the innermost first. -/
  candidates : List (Option KeyCandidate)

abbrev Lex := Except YamlError Lexer

namespace Lexer

def start (text : List Char) : Lexer := ⟨.start text, [], 0, -1, [], true, [none]⟩

def inFlow (l : Lexer) : Bool := 1 < l.candidates.length

def push (l : Lexer) (t : Token) : Lexer := { l with tokens := t :: l.tokens, count := l.count + 1 }

/-- Puts a token in behind the first `position` tokens. -/
def insertAt (l : Lexer) (position : Nat) (t : Token) : Lexer :=
  let later := l.count - position
  { l with tokens := l.tokens.take later ++ t :: l.tokens.drop later, count := l.count + 1 }

def moveTo (l : Lexer) (c : Cursor) : Lexer := { l with cursor := c }

def allowKey (l : Lexer) (allowed : Bool) : Lexer := { l with keyAllowed := allowed }

def candidate? (l : Lexer) : Option KeyCandidate := l.candidates.head?.join

def setCandidate (l : Lexer) (k : Option KeyCandidate) : Lexer :=
  { l with candidates := k :: l.candidates.tail }

/-- Gives up the candidate of this level, which has had no `:`. -/
def dropCandidate (l : Lexer) : Lex :=
  if l.candidate?.any (·.required) then .error .missingColon else .ok (l.setCandidate none)

/-- Notes that a key may begin here. -/
def saveCandidate (l : Lexer) : Lex :=
  if l.keyAllowed then do
    let c := l.cursor
    return (← l.dropCandidate).setCandidate
      (some ⟨l.count, c.index, c.line, c.column, !l.inFlow && l.indent == c.column⟩)
  else .ok l

/-- A key stands on one line and has at most 1024 bytes. -/
def isStale (c : Cursor) (k : KeyCandidate) : Bool := k.line < c.line || k.index + 1024 < c.index

def dropStale (l : Lexer) : Lex :=
  if l.candidates.any fun k => k.any fun k => isStale l.cursor k && k.required then
    .error .missingColon
  else .ok { l with candidates := l.candidates.map fun k => k.filter fun k => !isStale l.cursor k }

/-- Opens a block collection at `column`, if that is deeper than what is open. -/
def indentTo (l : Lexer) (column : Nat) (position : Nat) (t : Token) : Lexer :=
  if !l.inFlow && l.indent < column then
    { l with indent := column, outer := l.indent :: l.outer }.insertAt position t
  else l

/-- Closes the block collections deeper than `column`. -/
def closeBlocks (column : Int) : (outer : List Int) → Lexer → Lexer
  | [], l => l
  | o :: rest, l =>
    if column < l.indent then closeBlocks column rest ({ l with indent := o, outer := rest }.push .blockEnd)
    else l

def unindent (l : Lexer) (column : Int) : Lexer :=
  if l.inFlow then l else closeBlocks column l.outer l

/-- Steps over blanks, comments and line ends. A tab counts as a blank only where no key can begin. A
line may start with a byte order mark, which takes a column. -/
def skipBlanks : (fuel : Nat) → Lexer → Lexer
  | 0, l => l
  | fuel + 1, l =>
    let c := l.cursor
    let c := if c.column = 0 ∧ c.looksAt '\ufeff' then c.skip 1 else c
    let c := c.skipWhile fun x => x = ' ' || (x = '\t' && (l.inFlow || !l.keyAllowed))
    let c := c.skipComment
    if c.atBreak then
      skipBlanks fuel ((l.moveTo c.takeBreak.2).allowKey (l.keyAllowed || !l.inFlow))
    else l.moveTo c

/-! Directives, anchors and tags. -/

def endOfDirective (c : Cursor) : Except YamlError Cursor :=
  let c := c.skipGaps.skipComment
  if c.atEnd || c.atBreak then .ok c.takeBreak.2 else .error .malformedDirective

def versionNumber (c : Cursor) : Except YamlError (Nat × Cursor) :=
  let (ds, after) := c.takeWhile Char.isDigit
  if ds.isEmpty || 9 < ds.length then .error .malformedDirective
  else .ok (Decimal.digitsValue ds, after)

/-- How many bytes have to follow a first byte of a character. -/
def followers? (lead : Nat) : Option Nat :=
  if lead < 0x80 then some 0
  else if 0xc0 ≤ lead && lead < 0xe0 then some 1
  else if 0xe0 ≤ lead && lead < 0xf0 then some 2
  else if 0xf0 ≤ lead && lead < 0xf8 then some 3
  else none

/-- How many bytes are missing after one more byte. -/
def missingAfter? (missing byte : Nat) : Option Nat :=
  match missing with
  | 0 => followers? byte
  | n + 1 => if 0x80 ≤ byte && byte < 0xc0 then some n else none

/-- The bytes of a part of a tag. Escaped bytes have to come in the numbers that their first byte asks
for; whether they make a character is not asked. -/
def unescape : (missing : Nat) → List Char → Option (List UInt8)
  | 0, [] => some []
  | missing, '%' :: a :: b :: rest => do
    let n ← digits? 16 [a, b]
    return n.toUInt8 :: (← unescape (← missingAfter? missing n) rest)
  | _, '%' :: _ => none
  | 0, c :: rest => do return (String.singleton c).toUTF8.toList ++ (← unescape 0 rest)
  | _ + 1, _ => none

def isUri (verbatim : Bool) (c : Char) : Bool :=
  isWord c || ";/?:@&=+$.%!~*'()".toList.contains c || (verbatim && ",[]".toList.contains c)

/-- Part of a tag, up to its first zero byte; `known` has been read already. -/
def tagRest (verbatim : Bool) (known : List Char) (c : Cursor) : Except YamlError (List UInt8 × Cursor) :=
  let (uri, after) := c.takeWhile (isUri verbatim)
  match unescape 0 (known ++ uri) with
  | some bytes => .ok (bytes.takeWhile (· ≠ 0), after)
  | none => .error .malformedTag

/-- Part of a tag of which something has to be written. -/
def tagUri (verbatim : Bool) (c : Cursor) : Except YamlError (List UInt8 × Cursor) :=
  if c.peek.any (isUri verbatim) then tagRest verbatim [] c else .error .malformedTag

/-- `!`, the word after it, and a second `!` if there is one. -/
def tagHandle (c : Cursor) : Except YamlError (List Char × Cursor) :=
  if !c.looksAt '!' then .error .malformedTag
  else
    let (word, after) := (c.skip 1).takeWhile isWord
    if after.looksAt '!' then .ok ('!' :: word ++ ['!'], after.skip 1)
    else .ok ('!' :: word, after)

def directive (c : Cursor) : Except YamlError (Token × Cursor) := do
  let (name, after) := (c.skip 1).takeWhile isWord
  if name.isEmpty || !after.opensAt 0 then throw .malformedDirective
  if name = "YAML".toList then
    let (major, c) ← versionNumber after.skipGaps
    if !c.looksAt '.' then throw .malformedDirective
    let (minor, c) ← versionNumber (c.skip 1)
    return (.version major minor, ← endOfDirective c)
  else if name = "TAG".toList then
    let (handle, c) ← tagHandle after.skipGaps
    if handle.getLast? ≠ some '!' then throw .malformedTag
    if !c.atGap then throw .malformedDirective
    let (lead, c) ← tagUri true c.skipGaps
    if !c.opensAt 0 then throw .malformedTag
    return (.tagDirective (String.ofList handle) lead, ← endOfDirective c)
  else throw .malformedDirective

/-- The name after `&` or `*`. -/
def anchorName (c : Cursor) : Except YamlError (String × Cursor) :=
  let (name, after) := (c.skip 1).takeWhile isWord
  if name.isEmpty then .error .malformedAnchor
  else if after.opensAt 0 || after.peek.any fun x => "?:,]\x7d%@`".toList.contains x then
    .ok (String.ofList name, after)
  else .error .malformedAnchor

def tag (inFlow : Bool) (c : Cursor) : Except YamlError (Token × Cursor) := do
  let (t, c) ← if (c.skip 1).looksAt '<' then do
      let (suffix, c) ← tagUri true (c.skip 2)
      if !c.looksAt '>' then throw .malformedTag
      pure (Token.tag "" suffix, c.skip 1)
    else do
      let (handle, c) ← tagHandle c
      if 1 < handle.length && handle.getLast? = some '!' then
        let (suffix, c) ← tagUri false c
        pure (Token.tag (String.ofList handle) suffix, c)
      else
        let (suffix, c) ← tagRest false (handle.drop 1) c
        if suffix.isEmpty then pure (Token.tag "" bareTag, c) else pure (Token.tag "!" suffix, c)
  if c.opensAt 0 || (inFlow && c.looksAt ',') then return (t, c) else throw .malformedTag

/-! Tokens. -/

def scanDirective (l : Lexer) : Lex := do
  let l ← (l.unindent (-1)).dropCandidate
  let (t, c) ← directive l.cursor
  return ((l.allowKey false).moveTo c).push t

def scanDocumentMark (l : Lexer) : Lex := do
  let l ← (l.unindent (-1)).dropCandidate
  let t := if l.cursor.looksAt '-' then Token.documentStart else .documentEnd
  return ((l.allowKey false).moveTo (l.cursor.skip 3)).push t

def scanOpen (l : Lexer) (t : Token) : Lex := do
  let l ← l.saveCandidate
  let l := { l with candidates := none :: l.candidates }
  return ((l.allowKey true).moveTo (l.cursor.skip 1)).push t

def scanClose (l : Lexer) (t : Token) : Lex := do
  let l ← l.dropCandidate
  let l := if l.inFlow then { l with candidates := l.candidates.tail } else l
  return ((l.allowKey false).moveTo (l.cursor.skip 1)).push t

def scanComma (l : Lexer) : Lex := do
  let l ← l.dropCandidate
  return ((l.allowKey true).moveTo (l.cursor.skip 1)).push .comma

def scanEntry (l : Lexer) : Lex := do
  if !l.inFlow && !l.keyAllowed then throw (.misplaced "block sequence entries")
  let l ← (l.indentTo l.cursor.column l.count .blockSequence).dropCandidate
  return ((l.allowKey true).moveTo (l.cursor.skip 1)).push .entry

def scanKey (l : Lexer) : Lex := do
  if !l.inFlow && !l.keyAllowed then throw (.misplaced "mapping keys")
  let l ← (l.indentTo l.cursor.column l.count .blockMapping).dropCandidate
  return ((l.allowKey !l.inFlow).moveTo (l.cursor.skip 1)).push .key

def scanValue (l : Lexer) : Lex := do
  let l ← match l.candidate? with
    | some k =>
      let l := (l.insertAt k.position .key).indentTo k.column k.position .blockMapping
      pure ((l.setCandidate none).allowKey false)
    | none =>
      if !l.inFlow && !l.keyAllowed then throw (.misplaced "mapping values")
      let l := l.indentTo l.cursor.column l.count .blockMapping
      pure (l.allowKey !l.inFlow)
  return (l.moveTo (l.cursor.skip 1)).push .value

def scanAnchor (l : Lexer) (make : String → Token) : Lex := do
  let l ← l.saveCandidate
  let (name, c) ← anchorName l.cursor
  return ((l.allowKey false).moveTo c).push (make name)

def scanTag (l : Lexer) : Lex := do
  let l ← l.saveCandidate
  let (t, c) ← tag l.inFlow l.cursor
  return ((l.allowKey false).moveTo c).push t

def scanBlockScalar (l : Lexer) (literal : Bool) : Lex := do
  let l ← l.dropCandidate
  let (text, c) ← blockText literal l.indent l.cursor
  return ((l.allowKey true).moveTo c).push (.scalar (String.ofList text) .block)

def scanQuoted (l : Lexer) (quote : Char) : Lex := do
  let l ← l.saveCandidate
  let (text, c) ← quotedText quote l.cursor
  return ((l.allowKey false).moveTo c).push (.scalar (String.ofList text) .quoted)

def scanPlain (l : Lexer) : Lex := do
  let l ← l.saveCandidate
  let p ← plainText l.inFlow (l.indent + 1).toNat l.cursor
  return ((l.allowKey p.broken).moveTo p.after).push (.scalar (String.ofList p.text) .plain)

/-- Whether a plain scalar can begin with `x`, before `rest`. -/
def startsPlain (inFlow : Bool) (x : Char) (rest : List Char) : Bool :=
  if x = '-' then !rest.head?.any isGap
  else if x = '?' || x = ':' then !inFlow && !isOpen rest
  else !(isGap x || ",[]\x7b\x7d#&*!|>'\"%@`".toList.contains x)

def scanToken (l : Lexer) (x : Char) : Lex :=
  let c := l.cursor
  if c.column = 0 && x = '%' then l.scanDirective
  else if c.atDocumentMark then l.scanDocumentMark
  else if x = '[' then l.scanOpen .openSequence
  else if x = '{' then l.scanOpen .openMapping
  else if x = ']' then l.scanClose .closeSequence
  else if x = '}' then l.scanClose .closeMapping
  else if x = ',' then l.scanComma
  else if x = '-' && c.opensAt 1 then l.scanEntry
  else if x = '?' && (l.inFlow || c.opensAt 1) then l.scanKey
  else if x = ':' && (l.inFlow || c.opensAt 1) then l.scanValue
  else if x = '*' then l.scanAnchor .reference
  else if x = '&' then l.scanAnchor .anchor
  else if x = '!' then l.scanTag
  else if x = '|' && !l.inFlow then l.scanBlockScalar true
  else if x = '>' && !l.inFlow then l.scanBlockScalar false
  else if x = '\'' || x = '"' then l.scanQuoted x
  else if startsPlain l.inFlow x (c.rest.drop 1) then l.scanPlain
  else .error .unexpectedCharacter

def finish (l : Lexer) : Lex := do
  return (← (l.unindent (-1)).dropCandidate).push .streamEnd

def run : (fuel : Nat) → Lexer → Lex
  | 0, l => l.finish
  | fuel + 1, l => do
    let l ← (skipBlanks (l.cursor.rest.length + 1) l).dropStale
    let l := l.unindent l.cursor.column
    match l.cursor.peek with
    | none => l.finish
    | some x => run fuel (← l.scanToken x)

end Lexer

/-- Control characters that no YAML text may hold, not even in comments. -/
def isControl (c : Char) : Bool :=
  let n := c.toNat
  (n < 0x20 && n ≠ 9 && n ≠ 10 && n ≠ 13) || (0x7f ≤ n && n < 0xa0 && n ≠ 0x85) ||
    n = 0xfffe || n = 0xffff

/-- The tokens of a text, of which the last one is `streamEnd`. -/
def tokens (text : String) : Except YamlError (List Token) :=
  let cs := text.toList
  if cs.any isControl then .error .controlCharacter
  else do return (← (Lexer.start cs).run (cs.length + 1)).tokens.reverse

end Cascade.Yaml
