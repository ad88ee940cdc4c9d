import Cascade.Build.CommandLine
import Cascade.Build.Pipeline
import Cascade.Json.Printer
import Cascade.Shell.Run
import Cascade.Text.Blank
/-!
Compilers that are programs. A program runs once for each batch and reads the batch from its input:

    [{"source":"/env/modules/a/manifests/init.pp","output":"/env/cache/a/manifests/init.json"}]

It succeeds by ending with status 0; else what it wrote to its error output is the message.
-/
namespace Cascade.Build

def Job.toJson (j : Job) : Json :=
  .object [("source", .string j.source), ("output", .string j.artifact)]

def payload (jobs : List Job) : String := (Json.array (jobs.map Job.toJson)).compact

def signalName : Nat → String
  | 1 => " (SIGHUP)"
  | 2 => " (SIGINT)"
  | 9 => " (SIGKILL)"
  | 15 => " (SIGTERM)"
  | _ => ""

def describeEnding : Shell.Ending → String
  | .exit code => "exit status: " ++ Decimal.digitText code
  | .signal n => "signal: " ++ Decimal.digitText n ++ signalName n

/-- Why a run that ended did not succeed. -/
def failureOf (o : Shell.Outcome) : Option String :=
  if o.ending = .exit 0 then none
  else some (describeEnding o.ending ++ ": " ++ String.ofList (Text.trim o.errorText.toList))

def CommandLine.compiler {ω : Type} (c : CommandLine) : Compiler ω := fun jobs => do
  match Shell.run (← filesNow) c.program c.args (payload jobs) with
  | .error e => throw (.compiler c.program ("could not start: " ++ e.message))
  | .ok o =>
    modify fun s => (o.files, s.2)
    match failureOf o with
    | some message => throw (.compiler c.program message)
    | none => pure ()

end Cascade.Build
