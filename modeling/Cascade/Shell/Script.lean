/-!
Scripts of simple commands. A command is a list of words with redirections of its output; commands
stand on lines of their own or behind `;`. Words may be quoted and may refer to an argument of the
script (`$1`) or to the process that runs it (`$$`).

    cat > "$1"/batch.json
    echo 'no such module' >&2; exit 3
-/
namespace Cascade.Shell

inductive Piece
  | text (c : Char)
  | argument (n : Nat)
  | process
  deriving DecidableEq

abbrev Word := List Piece

inductive Target
  | file (path : Word)
  /-- Where this descriptor leads. -/
  | sameAs (descriptor : Nat)
  deriving DecidableEq

structure Command where
  words : List Word
  /-- Descriptors and where they lead, in the order of the text. -/
  redirections : List (Nat × Target)
  /-- The number of the line, from 1 on. -/
  line : Nat
  deriving DecidableEq

inductive Token
  | word (w : Word)
  /-- The word after it is the file that a descriptor leads to. -/
  | toFile (descriptor : Nat)
  | toSame (descriptor other : Nat)
  | finish
  | newLine
  deriving DecidableEq

def digit? (c : Char) : Option Nat := if c.isDigit then some (c.toNat - '0'.toNat) else none

/-- The tokens before the given one end the word that was being read. -/
def flush (word : Option Word) (rest : List Token) : List Token :=
  match word with
  | some w => .word w :: rest
  | none => rest

def add (word : Option Word) (p : Piece) : Option Word := some (word.getD [] ++ [p])

/-- A reference to an argument if a digit follows the `$`, and else the `$` itself. -/
def reference (c : Char) : List Piece :=
  match digit? c with
  | some n => [.argument n]
  | none => [.text '$', .text c]

/-- The descriptor that a `>&` names. -/
def toSame (descriptor : Nat) (c : Char) : Token := .toSame descriptor ((digit? c).getD 1)

mutual
/-- Cuts a script into tokens; `word` is the part of a word that has been read. -/
def tokens (word : Option Word) : List Char → List Token
  | [] => flush word []
  | '"' :: s => inDouble (word.getD []) s
  | '\'' :: s => inSingle (word.getD []) s
  | '\\' :: c :: s => tokens (add word (.text c)) s
  | '$' :: '$' :: s => tokens (add word .process) s
  | '$' :: c :: s => tokens (some (word.getD [] ++ reference c)) s
  | '\n' :: s => flush word (.newLine :: tokens none s)
  | ';' :: s => flush word (.finish :: tokens none s)
  | ' ' :: s | '\t' :: s => flush word (tokens none s)
  | '#' :: s => if word.isNone then inComment s else tokens (add word (.text '#')) s
  | '>' :: '&' :: c :: s => flush word (toSame 1 c :: tokens none s)
  | '>' :: s => flush word (.toFile 1 :: tokens none s)
  | '2' :: '>' :: '&' :: c :: s => flush word (toSame 2 c :: tokens none s)
  | '2' :: '>' :: s => flush word (.toFile 2 :: tokens none s)
  | c :: s => tokens (add word (.text c)) s

def inSingle (word : Word) : List Char → List Token
  | [] => [.word word]
  | '\'' :: s => tokens (some word) s
  | c :: s => inSingle (word ++ [.text c]) s

def inDouble (word : Word) : List Char → List Token
  | [] => [.word word]
  | '"' :: s => tokens (some word) s
  | '\\' :: c :: s => inDouble (word ++ [.text c]) s
  | '$' :: '$' :: s => inDouble (word ++ [.process]) s
  | '$' :: '"' :: s => tokens (some (word ++ [.text '$'])) s
  | '$' :: c :: s => inDouble (word ++ reference c) s
  | c :: s => inDouble (word ++ [.text c]) s

def inComment : List Char → List Token
  | [] => []
  | '\n' :: s => .newLine :: tokens none s
  | _ :: s => inComment s
end

/-- Ends the command that was being read; nothing is no command. -/
def close (command : Command) (rest : List Command) : List Command :=
  if command.words.isEmpty && command.redirections.isEmpty then rest else command :: rest

def commands (command : Command) : List Token → List Command
  | [] => close command []
  | .finish :: ts => close command (commands ⟨[], [], command.line⟩ ts)
  | .newLine :: ts => close command (commands ⟨[], [], command.line + 1⟩ ts)
  | .word w :: ts => commands { command with words := command.words ++ [w] } ts
  | .toSame d other :: ts =>
    commands { command with redirections := command.redirections ++ [(d, .sameAs other)] } ts
  | .toFile d :: .word w :: ts =>
    commands { command with redirections := command.redirections ++ [(d, .file w)] } ts
  | .toFile _ :: ts => commands command ts

def parse (script : String) : List Command :=
  commands ⟨[], [], 1⟩ (tokens none script.toList)

end Cascade.Shell
