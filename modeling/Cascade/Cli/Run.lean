import Cascade.Cli.Command
import Cascade.Environment.Workspace
import Cascade.Json.Printer
import Cascade.Node.Dump
/-!
The command line program: what a command prints and what it does to the files. An environment is named
by the path of its directory.
-/
namespace Cascade.Cli

structure Output where
  /-- 0 for success and 1 for failure. -/
  code : Nat
  out : String
  err : String
  deriving DecidableEq, Inhabited

def text (lines : List String) : String := String.join (lines.map (· ++ "\n"))

def usage : String := text [
  "Strata - layered configuration resolution",
  "",
  "Usage: strata <command> [options]",
  "",
  "Commands:",
  "  resolve <env> <node> <class>           Resolve a class and print its properties",
  "  resource <env> <node> <type> <title>   Resolve one defined-type title",
  "  lookup <env> <node> <key>              Look up a hierarchy key or fact",
  "  classes <env> <node>                   List classes included by the hierarchy",
  "  build <env>                            Compile stale artifacts",
  "  help                                   Show this help message",
  "  version                                Show version information",
  "",
  "<env> is the environment's root directory; its name is the directory name.",
  "",
  "Options:",
  "  --compiler=<command>   External compiler (default: $STRATA_COMPILER)",
  "  --jobs=<n>             Build workers (default: cores - 1)",
  "  --classes-key=<key>    Hierarchy key holding the class list",
  "",
  "Set RUST_LOG (e.g. RUST_LOG=strata=debug) for tracing output."]

def versionText : String := text ["Strata 0.1.0-alpha.1"]

namespace UsageError

def output : UsageError → Output
  | .badCount count => ⟨1, "", text ["error: --jobs expects a number, got '" ++ count ++ "'"]⟩
  | .missing form => ⟨1, "", text ["Usage: strata " ++ form]⟩
  | .unknownCommand name => ⟨1, usage, text ["Unknown command: " ++ name, ""]⟩

end UsageError

/-- The output of a command that used environments: the lines it printed as it went on, then the
warnings, then the error. -/
def report (ws : Workspace) (progress : List String) (out : String)
    (result : Except EnvironmentError Unit) : Output :=
  let warnings := ws.drainWarnings.1.map fun n => "warning: " ++ n.text
  match result with
  | .ok _ => ⟨0, out, text (progress ++ warnings)⟩
  | .error e => ⟨1, out, text (progress ++ warnings ++ ["error: " ++ e.message])⟩

/-- The name of what a path leads to; the root directory has none. -/
def nameOf? (files : Files) (path : String) : Option String :=
  match files.locate path, files.exists path with
  | .ok place, true => place.getLast?
  | _, _ => none

def configOf (files : Files) (root : String) (o : Options) : EnvironmentConfig :=
  let config := EnvironmentConfig.standard ((nameOf? files root).getD "production") root
  { config with compiler := o.compiler, jobs := o.jobs,
                classListKey := o.classListKey.getD config.classListKey }

namespace Query

/-- The answer of a node. -/
def run (resolver : Resolver Host) : Query → Act Host Json
  | .resolve className => return (← Node.dumpClass resolver className).toJson
  | .resource typeName title => return (← Node.dumpResource resolver typeName title).toJson
  | .lookup key => do
    match (← get).host.node.globalAt? key with
    | none => return .ofMembers [("value", .null)]
    | some (v, level) =>
      return .ofMembers [("value", v.toJson), ("level", level.elim .null .ofNat)]
  | .classes => do
    let classes := (← get).host.node.listedClasses
    return .array (classes.map fun c => .ofMembers [("name", .string c.1), ("level", .ofNat c.2)])

end Query

def runQuery (w : World) (config : EnvironmentConfig) (certname : String) (q : Query) :
    Output × World :=
  match Workspace.empty.open w config with
  | (.error n, ws, w) => (report ws [] "" (.error (.notice n)), w)
  | (.ok e, ws, w) =>
    match e.node w certname with
    | (.error error, e, w) => (report (ws.insert e) [] "" (.error (.node (.hierarchy error))), w)
    | (.ok n, e, w) =>
      match (q.run (Node.resolver Node.depth)).run (Machine.start ⟨n.node, w⟩) with
      | (.ok answer, m) => (report (ws.insert e) [] (text [answer.pretty 0]) (.ok ()), m.host.world)
      | (.error f, m) => (report (ws.insert e) [] "" (.error (.eval f)), m.host.world)

def progressLine (p : Nat × Nat) : String :=
  "[" ++ Decimal.digitText p.1 ++ "/" ++ Decimal.digitText p.2 ++ "] batches compiled"

def buildLine (r : Build.Report) : String :=
  if r.batches = 0 then "All artifacts are up to date"
  else
    "Compiled " ++ Decimal.digitText r.compiled ++ " sources in " ++ Decimal.digitText r.batches ++
      " batches, " ++ Decimal.digitText r.failures.length ++ " failed"

/-- A build in which a batch failed is an error, though it went on to its end. -/
def buildResult (r : Build.Report) : Except EnvironmentError Unit :=
  if r.failures.isEmpty then .ok ()
  else .error (.notice ⟨"Build failed", Decimal.digitText r.failures.length ++ " batches failed"⟩)

def runBuild (w : World) (config : EnvironmentConfig) : Output × World :=
  match Workspace.empty.open w config with
  | (.error n, ws, w) => (report ws [] "" (.error (.notice n)), w)
  | (.ok e, ws, w) =>
    match e.build w with
    | (.error error, e, w) => (report (ws.insert e) [] "" (.error error), w)
    | (.ok r, e, w) =>
      (report (ws.insert e) (r.progress.map progressLine) (text [buildLine r]) (buildResult r), w)

def Command.run (w : World) (o : Options) : Command → Output × World
  | .help => (⟨0, usage, ""⟩, w)
  | .version => (⟨0, versionText, ""⟩, w)
  | .query root certname q => runQuery w (configOf w.files root o) certname q
  | .build root => runBuild w (configOf w.files root o)

/-- Runs the program. A compiler that is not blank is used unless an option names another. -/
def run (w : World) (compiler : Option String) (args : List String) : Output × World :=
  let compiler := compiler.filter fun line => !(Text.trim line.toList).isEmpty
  match Command.ofArgs ⟨compiler, none, none⟩ args with
  | .error e => (UsageError.output e, w)
  | .ok (command, o) => command.run w o

end Cascade.Cli
