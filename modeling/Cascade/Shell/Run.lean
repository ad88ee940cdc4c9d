import Cascade.Decimal.Count
import Cascade.Decimal.Layout
import Cascade.Files.Basic
import Cascade.Shell.Script
/-!
Running a program over a file tree. The programs are `sh` and the few commands that its scripts may
use; standard output goes nowhere unless it is redirected.
-/
namespace Cascade.Shell

inductive Ending
  | exit (code : Nat)
  | signal (number : Nat)
  deriving DecidableEq

/-- What a run leaves behind. -/
structure Outcome where
  ending : Ending
  errorText : String
  files : Files

/-- A script in progress. -/
structure Process where
  name : String
  args : List String
  /-- What has not been read of the input. -/
  input : String
  errorText : String
  files : Files
  status : Nat

namespace Process

def expandPiece (p : Process) : Piece → String
  | .text c => String.singleton c
  | .argument 0 => p.name
  | .argument (n + 1) => p.args.getD n ""
  | .process => "$$"

def expand (p : Process) (w : Word) : String := String.join (w.map p.expandPiece)

def complain (p : Process) (text : String) : Process :=
  { p with errorText := p.errorText ++ text ++ "\n" }

def failWith (p : Process) (status : Nat) (text : String) : Process :=
  { p.complain text with status }

end Process

/-- Where the two outputs of a command go. -/
inductive Sink
  | nowhere
  | errors
  | file (path : String)
  deriving DecidableEq

structure Sinks where
  output : Sink
  errors : Sink

def Sinks.get (s : Sinks) (descriptor : Nat) : Sink := if descriptor = 2 then s.errors else s.output

def Sinks.set (s : Sinks) (descriptor : Nat) (sink : Sink) : Sinks :=
  if descriptor = 2 then { s with errors := sink } else { s with output := sink }

def nullDevice : String := "/dev/null"

/-- Opens the files that a command writes to. -/
def openSinks (p : Process) (line : Nat) (sinks : Sinks) :
    List (Nat × Target) → Except Process (Process × Sinks)
  | [] => .ok (p, sinks)
  | (d, .sameAs other) :: rest => openSinks p line (sinks.set d (sinks.get other)) rest
  | (d, .file w) :: rest =>
    let path := p.expand w
    if path = nullDevice then openSinks p line (sinks.set d .nowhere) rest
    else match p.files.write path (.text "") with
      | .ok files => openSinks { p with files } line (sinks.set d (.file path)) rest
      | .error e =>
        let reason := if e = .notFound then "Directory nonexistent" else e.reason
        .error (p.failWith 2 (p.name ++ ": " ++ Decimal.digitText line ++ ": cannot create " ++ path ++
          ": " ++ reason))

def emit (p : Process) (sink : Sink) (text : String) : Process :=
  match sink with
  | .nowhere => p
  | .errors => { p with errorText := p.errorText ++ text }
  | .file path =>
    let old := (p.files.readText path).toOption.getD ""
    { p with files := (p.files.write path (.text (old ++ text))).toOption.getD p.files }

/-- Copies everything at and below a place to another place. -/
def copyBelow (files : Files) (source target : List String) : Files :=
  files.entries.foldl (fun files e =>
    if source.isPrefixOf e.1 then
      let place := target ++ e.1.drop source.length
      match e.2, files.entry? place with
      | .file content _, _ => (files.put place (.file content files.clock)).tick
      | .directory _, none => (files.put place (.directory files.clock)).tick
      | .directory _, some _ => files
    else files) files

/-- Copies one tree; a directory that is there already receives it, the path `a/.` names what is in
`a`. -/
def copyOne (p : Process) (recursive : Bool) (source target : String) : Process :=
  match p.files.locate source, p.files.stat source with
  | .ok place, .ok e =>
    if e.isDirectory && !recursive then
      p.failWith 1 ("cp: -r not specified; omitting directory '" ++ source ++ "'")
    else
      match p.files.locate target with
      | .error e => p.failWith 1 ("cp: cannot create '" ++ target ++ "': " ++ e.reason)
      | .ok there =>
        let inside := p.files.isDirectory target && (Path.pieces source).getLast? != some "."
        let there := if inside then there ++ place.getLast?.toList else there
        match p.files.entry? there.dropLast with
        | some (.directory _) => { p with files := copyBelow p.files place there, status := 0 }
        | _ => p.failWith 1 ("cp: cannot create '" ++ target ++ "': " ++ IoError.reason .notFound)
  | .error e, _ | _, .error e => p.failWith 1 ("cp: cannot stat '" ++ source ++ "': " ++ e.reason)

def copy (p : Process) (args : List String) : Process :=
  let options := args.filter fun a => "-".toList.isPrefixOf a.toList
  let paths := args.filter fun a => !"-".toList.isPrefixOf a.toList
  let recursive := options.any fun o => o.toList.any fun c => c = 'r' || c = 'R' || c = 'a'
  match paths.reverse with
  | [] => p.failWith 1 "cp: missing file operand"
  | [only] => p.failWith 1 ("cp: missing destination file operand after '" ++ only ++ "'")
  | target :: sources =>
    let done := sources.reverse.foldl (fun (done : Process × Nat) source =>
      let p := copyOne { done.1 with status := 0 } recursive source target
      (p, max done.2 p.status)) (p, 0)
    { done.1 with status := done.2 }

def catOne (sink : Sink) (p : Process) (path : String) : Process :=
  match p.files.readText path with
  | .ok text => emit p sink text
  | .error e => p.failWith 1 ("cat: " ++ path ++ ": " ++ e.reason)

def signalNumber (word : String) : Nat :=
  match word with
  | "-9" | "-KILL" => 9
  | "-1" | "-HUP" => 1
  | "-2" | "-INT" => 2
  | _ => 15

/-- Runs a command; it may end the script. -/
def runWords (p : Process) (line : Nat) (sinks : Sinks) : List String → Process × Option Ending
  | [] => ({ p with status := 0 }, none)
  | "true" :: _ | ":" :: _ => ({ p with status := 0 }, none)
  | "false" :: _ => ({ p with status := 1 }, none)
  | "echo" :: args => ({ emit p sinks.output (" ".intercalate args ++ "\n") with status := 0 }, none)
  | ["cat"] => ({ emit p sinks.output p.input with input := "", status := 0 }, none)
  | "cat" :: paths => (paths.foldl (catOne sinks.output) { p with status := 0 }, none)
  | "cp" :: args => (copy p args, none)
  | ["exit"] => (p, some (.exit p.status))
  | "exit" :: code :: _ => (p, some (.exit ((Decimal.readCount? code.toList).getD 2 % 256)))
  | ["kill", "$$"] => (p, some (.signal 15))
  | ["kill", signal, "$$"] => (p, some (.signal (signalNumber signal)))
  | name :: _ =>
    (p.failWith 127 (p.name ++ ": " ++ Decimal.digitText line ++ ": " ++ name ++ ": not found"), none)

def runCommands (p : Process) : List Command → Outcome
  | [] => ⟨.exit p.status, p.errorText, p.files⟩
  | c :: cs =>
    match openSinks p c.line ⟨.nowhere, .errors⟩ c.redirections with
    | .error p => runCommands p cs
    | .ok (p, sinks) =>
      match runWords p c.line sinks (c.words.map p.expand) with
      | (p, some ending) => ⟨ending, p.errorText, p.files⟩
      | (p, none) => runCommands p cs

def runScript (files : Files) (name : String) (args : List String) (script input : String) : Outcome :=
  runCommands ⟨name, args, input, "", files, 0⟩ (parse script)

/-- Programs that are commands of their own. -/
def commandNames : List String := ["true", "false", "echo", "cat", "cp"]

/-- The name under which a program in one of the standard directories is known. -/
def standardName (program : String) : String :=
  let found := ["/bin/", "/usr/bin/"].findSome? fun d => Text.strip? d.toList program.toList
  (found.map String.ofList).getD program

/-- Runs `sh` with a script in a file, with `-c` and a script, or with a script as its input. -/
def runShell (files : Files) (args : List String) (input : String) : Outcome :=
  match args with
  | [] => runScript files "sh" [] input ""
  | "-c" :: script :: args => runScript files (args.headD "sh") (args.drop 1) script input
  | path :: args =>
    match files.readText path with
    | .ok script => runScript files path args script input
    | .error _ => ⟨.exit 2, "sh: 0: cannot open " ++ path ++ ": No such file\n", files⟩

/-- Runs a program; an error means that it did not even start. -/
def run (files : Files) (program : String) (args : List String) (input : String) :
    Except IoError Outcome :=
  let name := standardName program
  if name = "sh" then .ok (runShell files args input)
  else if commandNames.contains name then
    let p : Process := ⟨program, args, input, "", files, 0⟩
    let (p, _) := runWords p 1 ⟨.nowhere, .errors⟩ (name :: args)
    .ok ⟨.exit p.status, p.errorText, p.files⟩
  else if program.toList.contains '/' then
    match files.stat program with
    | .ok _ => .error .permissionDenied
    | .error e => .error e
  else .error .notFound

end Cascade.Shell
