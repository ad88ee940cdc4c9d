import Cascade.Yaml.Cursor
import Cascade.Yaml.Plain
/-!
YAML nodes as text, in block style with two columns to a level. Sequences in a mapping start in the
column of its keys. A string stands plain where it can and would be read as that string again, in
single quotes where it would not, in double quotes where some character needs an escape, and as a
block of lines where it has line feeds. Tags are not written.
-/
namespace Cascade.Yaml

/-- What of a text decides how it can be written. -/
structure Shape where
  length : Nat
  multiline : Bool
  plain : Bool
  singleQuoted : Bool
  block : Bool

def isPrintable (c : Char) : Bool :=
  let n := c.toNat
  n = 10 || (0x20 ≤ n && n ≤ 0x7e) || (0xa0 ≤ n && n ≤ 0xfffd && n ≠ 0xfeff) || 0x10000 ≤ n

/-- Characters that mean something at the start of a plain scalar. -/
def isIndicator (c : Char) : Bool := "#,[]\x7b\x7d&*!|>'\"%@`".toList.contains c

/-- Whether a text that goes on with `rest` after `c` may not be plain for the sake of `c`. -/
def blocksPlain (first afterGap : Bool) (c : Char) (rest : List Char) : Bool :=
  if first then isIndicator c || ((c = '?' || c = ':' || c = '-') && isOpen rest)
  else (c = ':' && isOpen rest) || (c = '#' && afterGap)

def anyBlocksPlain : (first afterGap : Bool) → List Char → Bool
  | _, _, [] => false
  | first, afterGap, c :: rest =>
    blocksPlain first afterGap c rest || anyBlocksPlain false (isGap c || isBreak c) rest

def hasPair (p q : Char → Bool) : List Char → Bool
  | a :: b :: rest => p a && q b || hasPair p q (b :: rest)
  | _ => false

def startsDocumentMark (s : List Char) : Bool :=
  ['-', '-', '-'].isPrefixOf s || ['.', '.', '.'].isPrefixOf s

def shapeOf (text : String) : Shape :=
  let s := text.toList
  let isSpace := fun c : Char => c = ' '
  let edge := fun c : Char => c = ' ' || isBreak c
  let special := s.any fun c => !isPrintable c
  let multiline := s.any isBreak
  let spaceThenBreak := hasPair isSpace isBreak s
  let breakThenSpace := hasPair isBreak isSpace s
  { length := text.utf8ByteSize
    multiline
    plain := !(startsDocumentMark s || anyBlocksPlain true true s || special || multiline ||
      s.head?.any edge || s.getLast?.any edge)
    singleQuoted := !(breakThenSpace || spaceThenBreak || special)
    block := !(s.isEmpty || s.getLast?.any isSpace || spaceThenBreak || special) }

def pad (n : Nat) : List Char := List.replicate n ' '

/-- Line ends inside a quoted scalar are followed by the indentation of the next line. -/
def singleQuotedChars (indent : Nat) : (broken : Bool) → List Char → List Char
  | broken, [] => if broken then pad indent else []
  | broken, c :: rest =>
    if isBreak c then c :: singleQuotedChars indent true rest
    else
      (if broken then pad indent else []) ++ (if c = '\'' then ['\'', '\''] else [c]) ++
        singleQuotedChars indent false rest

def hexText (width n : Nat) : List Char :=
  let ds := (Nat.toDigits 16 n).map Char.toUpper
  List.replicate (width - ds.length) '0' ++ ds

def escapedChar (c : Char) : List Char :=
  let n := c.toNat
  if c = '"' then ['\\', '"']
  else if c = '\\' then ['\\', '\\']
  else if isPrintable c && !isBreak c then [c]
  else if n = 0 then ['\\', '0']
  else if n = 7 then ['\\', 'a']
  else if n = 8 then ['\\', 'b']
  else if n = 9 then ['\\', 't']
  else if n = 10 then ['\\', 'n']
  else if n = 11 then ['\\', 'v']
  else if n = 12 then ['\\', 'f']
  else if n = 13 then ['\\', 'r']
  else if n = 27 then ['\\', 'e']
  else if n = 0x85 then ['\\', 'N']
  else if n = 0x2028 then ['\\', 'L']
  else if n = 0x2029 then ['\\', 'P']
  else if n ≤ 0xff then '\\' :: 'x' :: hexText 2 n
  else if n ≤ 0xffff then '\\' :: 'u' :: hexText 4 n
  else '\\' :: 'U' :: hexText 8 n

def singleQuoted (indent : Nat) (s : List Char) : String :=
  String.ofList ('\'' :: singleQuotedChars indent false s ++ ['\''])

def doubleQuoted (s : List Char) : String :=
  String.ofList ('"' :: s.flatMap escapedChar ++ ['"'])

/-- The indicator of a block of lines. A digit tells the indentation where the first line would hide
it, and a sign what becomes of the line ends at the end. -/
def blockIndicator (s : List Char) : String :=
  let digit := if s.head?.any fun c => c = ' ' || isBreak c then "2" else ""
  let chomping := match s.reverse with
    | [] => "-"
    | [c] => if isBreak c then "+" else "-"
    | c :: d :: _ => if !isBreak c then "-" else if isBreak d then "+" else ""
  "|" ++ digit ++ chomping

/-- Other line ends than line feeds stay inside a line of the block. -/
def innerLine (indent : Nat) : (start : Bool) → List Char → List Char
  | _, [] => []
  | start, c :: rest =>
    if isBreak c then c :: innerLine indent true rest
    else (if start then pad indent else []) ++ c :: innerLine indent false rest

/-- Lines with their ends, from the texts between line feeds. A text that ends with another kind of
line end has no need of one more. -/
def endLines : List (List Char) → List (List Char)
  | [] | [[]] => []
  | [l] => [if l.getLast?.any isBreak then l else l ++ ['\n']]
  | l :: ls => (l ++ ['\n']) :: endLines ls

def blockLines (indent : Nat) (s : List Char) : List String :=
  (endLines (Text.splitBy (· = '\n') s)).map fun l => String.ofList (innerLine indent true l)

/-- A string as the text at the end of one line and the lines after it, which are indented by
`indent`. -/
def stringLines (indent : Nat) (text : String) (inKey : Bool) : String × List String :=
  let s := text.toList
  let shape := shapeOf text
  if s.contains '\n' && !inKey && shape.block then (blockIndicator s, blockLines indent s)
  else if s.contains '\n' then (doubleQuoted s, [])
  else if readsAsString text && shape.plain then (text, [])
  else if shape.singleQuoted then (singleQuoted indent s, [])
  else (doubleQuoted s, [])

def scalarLines (indent : Nat) : Yaml → String × List String
  | bool b => (if b then "true" else "false", [])
  | integer n => (integerText n, [])
  | float x => (yamlFloat.text x, [])
  | string s => stringLines indent s false
  | sequence _ => ("[]", [])
  | mapping _ => ("\x7b\x7d", [])
  | _ => ("null", [])

/-- A key stands before its `:` unless it is too long or has several lines. -/
def isSimpleKey : Yaml → Bool
  | string s => (shapeOf s).length ≤ 128 && !(shapeOf s).multiline
  | sequence items => items.isEmpty
  | mapping entries => entries.isEmpty
  | _ => true

def padText (n : Nat) (s : String) : String := String.ofList (pad n) ++ s

/-- Whether a node has lines of its own below the key it belongs to. -/
def isBlockCollection (v : Yaml) : Bool :=
  match v.untagged with
  | sequence items => !items.isEmpty
  | mapping entries => !entries.isEmpty
  | _ => false

/-- The column of the value of `k` in a mapping in column `indent`. -/
def valueColumn (indent : Nat) (k v : Yaml) : Nat :=
  match v.untagged with
  | sequence (_ :: _) => if isSimpleKey k then indent else indent + 2
  | _ => indent + 2

def keyText (indent : Nat) : Yaml → String
  | string s => (stringLines (indent + 2) s true).1
  | k => (scalarLines (indent + 2) k).1

/-- One entry, from the lines of its key and of its value. -/
def joinEntry (indent : Nat) (k v : Yaml) (kLines vLines : String × List String) :
    String × List String :=
  if !isSimpleKey k then
    ("? " ++ kLines.1, kLines.2 ++ padText indent (": " ++ vLines.1) :: vLines.2)
  else if isBlockCollection v then
    (keyText indent k ++ ":\n", padText (valueColumn indent k v) vLines.1 :: vLines.2)
  else (keyText indent k ++ ": " ++ vLines.1, vLines.2)

mutual
/-- The lines of a node in column `indent`, each with its end; the first comes without its
indentation. -/
def lines (indent : Nat) : Yaml → String × List String
  | sequence (v :: vs) =>
    let (first, rest) := lines (indent + 2) v
    ("- " ++ first, rest ++ itemLines indent vs)
  | mapping ((k, v) :: es) =>
    let (first, rest) :=
      joinEntry indent k v (lines (indent + 2) k) (lines (valueColumn indent k v) v)
    (first, rest ++ entryLines indent es)
  | tagged _ v => lines indent v
  | v =>
    let (text, rest) := scalarLines indent v
    (text ++ "\n", rest)

def itemLines (indent : Nat) : List Yaml → List String
  | [] => []
  | v :: vs =>
    let (first, rest) := lines (indent + 2) v
    padText indent ("- " ++ first) :: rest ++ itemLines indent vs

def entryLines (indent : Nat) : List (Yaml × Yaml) → List String
  | [] => []
  | (k, v) :: es =>
    let (first, rest) :=
      joinEntry indent k v (lines (indent + 2) k) (lines (valueColumn indent k v) v)
    padText indent first :: rest ++ entryLines indent es
end

/-- The text of a document. -/
def print (v : Yaml) : String :=
  let (first, rest) := lines 0 v
  String.join (first :: rest)

end Cascade.Yaml
