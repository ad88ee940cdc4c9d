import Cascade.Decimal.Count
import Cascade.Text.Split
/-!
What a command line asks for. Options may stand anywhere after the command, and of an option given
twice the last counts. All else is an argument; a command ignores those that it does not take.
-/
namespace Cascade.Cli

structure Options where
  compiler : Option String
  jobs : Option Nat
  classListKey : Option String
  deriving DecidableEq, Inhabited

/-- Something asked about a node. -/
inductive Query
  | resolve (className : String)
  | resource (typeName title : String)
  | lookup (key : String)
  | classes
  deriving DecidableEq

inductive Command
  | query (environment certname : String) (q : Query)
  | build (environment : String)
  | help
  | version
  deriving DecidableEq

inductive UsageError
  | badCount (text : String)
  /-- Arguments are missing; the command is used like this. -/
  | missing (form : String)
  | unknownCommand (name : String)
  deriving DecidableEq

/-- The value of an option written `lead` and the value. -/
def optionValue? (lead arg : String) : Option String :=
  (Text.strip? lead.toList arg.toList).map String.ofList

/-- The options after one more word; nothing if the word is no option. -/
def Options.add? (o : Options) (arg : String) : Except UsageError (Option Options) :=
  match optionValue? "--compiler=" arg with
  | some line => .ok (some { o with compiler := some line })
  | none =>
    match optionValue? "--jobs=" arg with
    | some count =>
      match Decimal.readCount? count.toList with
      | some n => .ok (some { o with jobs := some n })
      | none => .error (.badCount count)
    | none => .ok ((optionValue? "--classes-key=" arg).map fun key =>
        { o with classListKey := some key })

/-- The arguments and the options among some words. -/
def splitOptions (o : Options) : List String → Except UsageError (List String × Options)
  | [] => .ok ([], o)
  | arg :: args => do
    match ← o.add? arg with
    | some o => splitOptions o args
    | none =>
      let (rest, o) ← splitOptions o args
      return (arg :: rest, o)

namespace Command

/-- The command of a name with its arguments. -/
def ofWords (name : String) (args : List String) : Except UsageError Command :=
  match name with
  | "resolve" =>
    match args with
    | environment :: node :: className :: _ => .ok (.query environment node (.resolve className))
    | _ => .error (.missing "resolve <environment> <node> <class>")
  | "resource" =>
    match args with
    | environment :: node :: typeName :: title :: _ =>
      .ok (.query environment node (.resource typeName title))
    | _ => .error (.missing "resource <environment> <node> <type> <title>")
  | "lookup" =>
    match args with
    | environment :: node :: key :: _ => .ok (.query environment node (.lookup key))
    | _ => .error (.missing "lookup <environment> <node> <key>")
  | "classes" =>
    match args with
    | environment :: node :: _ => .ok (.query environment node .classes)
    | _ => .error (.missing "classes <environment> <node>")
  | "build" =>
    match args with
    | environment :: _ => .ok (.build environment)
    | [] => .error (.missing "build <environment> [--compiler=<command>] [--jobs=<n>]")
  | "help" | "--help" | "-h" => .ok .help
  | "version" | "--version" | "-v" => .ok .version
  | _ => .error (.unknownCommand name)

/-- Reads a command line, whose options are added to `o`. Without any word it asks for help. -/
def ofArgs (o : Options) : List String → Except UsageError (Command × Options)
  | [] => .ok (.help, o)
  | name :: words => do
    let (args, o) ← splitOptions o words
    return (← ofWords name args, o)

end Command
end Cascade.Cli
