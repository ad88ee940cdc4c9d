import Cascade.Environment.Config
import Cascade.Facts.Source
import Cascade.Node.ClassList
import Cascade.Node.Resolve
/-!
Environments: one module tree and one hierarchy for many nodes. A node is created when it is first
asked for; if its facts cannot be had it starts without any, and the reason becomes a warning.
-/
namespace Cascade

/-- What can go wrong on behalf of an environment. -/
inductive EnvironmentError
  | notice (n : Notice)
  | eval (f : Fault)
  | node (e : NodeError)
  | build (e : BuildError)
  deriving DecidableEq

def EnvironmentError.message : EnvironmentError → String
  | notice n => n.text
  | eval (.error e) => e.message
  | eval .exhausted => "definitions are nested too deeply"
  | node e => e.message
  | build e => e.message

structure OpenNode where
  /-- Tells a node from others of its name. -/
  serial : Nat
  node : Node

structure Environment where
  config : EnvironmentConfig
  serial : Nat
  hierarchy : Hierarchy
  compiler : Option Build.CommandLine
  loader : Loader
  facts : FactSource
  nodes : Table String OpenNode
  warnings : List Notice

namespace Environment

def loadHierarchy (files : Files) (config : EnvironmentConfig) : Except Notice Hierarchy :=
  match Hierarchy.load files config.hierarchyPath config.root with
  | .ok (some h) => .ok h
  | .ok none => .ok (.standard config.root)
  | .error e => .error ⟨"Invalid hierarchy", e.message⟩

def compilerOf (config : EnvironmentConfig) : Except Notice (Option Build.CommandLine) :=
  match config.compiler with
  | none => .ok none
  | some line => match Build.CommandLine.ofText? line with
    | some c => .ok (some c)
    | none => .error ⟨"Invalid compiler", "the compiler command line is empty"⟩

def «open» (w : World) (config : EnvironmentConfig) : Except Notice (Environment × World) := do
  let hierarchy ← loadHierarchy w.files config
  let compiler ← compilerOf config
  let (serial, w) := w.serial
  return ({ config, serial, hierarchy, compiler, loader := .directory config.buildConfig compiler,
            facts := .directory config.factsPath, nodes := [], warnings := [] }, w)

def name (e : Environment) : String := e.config.name

def warn (e : Environment) (n : Notice) : Environment := { e with warnings := e.warnings ++ [n] }

/-- The facts of a node; a failure becomes a warning. -/
def fetchFacts (e : Environment) (files : Files) (certname : String) : Facts × Environment :=
  match e.facts.get files certname with
  | .ok facts => (facts, e)
  | .error n => ([], e.warn ⟨n.title, certname ++ ": " ++ n.message⟩)

def putNode (e : Environment) (certname : String) (n : OpenNode) : Environment :=
  { e with nodes := e.nodes.set certname n }

/-- The node of a name, made if it is not there. -/
def node (e : Environment) (w : World) (certname : String) :
    Except HierarchyError OpenNode × Environment × World :=
  match e.nodes.get? certname with
  | some n => (.ok n, e, w)
  | none =>
    let (facts, e) := e.fetchFacts w.files certname
    match Node.create w.files certname facts e.hierarchy e.loader with
    | .error error => (.error error, e, w)
    | .ok node =>
      let (serial, w) := w.serial
      let n : OpenNode := ⟨serial, { node with classListKey := e.config.classListKey }⟩
      (.ok n, e.putNode certname n, w)

def closeNode (e : Environment) (certname : String) : Bool × Environment :=
  (e.nodes.contains certname, { e with nodes := e.nodes.erase certname })

def nodeNames (e : Environment) : List String := Text.sorted e.nodes.keys

/-- Gives every node a hierarchy, up to the first that cannot be bound to it. -/
def rebind (files : Files) (h : Hierarchy) :
    Table String OpenNode → Except HierarchyError Unit × Table String OpenNode
  | [] => (.ok (), [])
  | (certname, n) :: rest =>
    match n.node.setHierarchy files h with
    | (.error e, node) => (.error e, (certname, { n with node }) :: rest)
    | (.ok _, node) =>
      let (result, rest) := rebind files h rest
      (result, (certname, { n with node }) :: rest)

/-- Reads the hierarchy document again. -/
def reload (e : Environment) (files : Files) : Except EnvironmentError Unit × Environment :=
  match loadHierarchy files e.config with
  | .error n => (.error (.notice n), e)
  | .ok hierarchy =>
    let (result, nodes) := rebind files hierarchy e.nodes
    (result.mapError fun error => .node (.hierarchy error), { e with hierarchy, nodes })

/-- Compiles every stale artifact; failed batches become warnings. -/
def build (e : Environment) (w : World) :
    Except EnvironmentError Build.Report × Environment × World :=
  match e.compiler with
  | none =>
    (.error (.notice ⟨"No compiler", "environment '" ++ e.name ++ "' has no compiler configured"⟩), e, w)
  | some c =>
    match (Build.build e.config.buildConfig (c.compiler : Build.Compiler Unit)).run (w.files, ()) with
    | (.error error, files, _) => (.error (.build error), e, { w with files })
    | (.ok report, files, _) =>
      let e := report.failures.foldl (fun e f => e.warn ⟨"Build failed", (BuildError.batch f.1 f.2).message⟩) e
      (.ok report, e, { w with files })

def drainWarnings (e : Environment) : List Notice × Environment :=
  (e.warnings, { e with warnings := [] })

def summary (e : Environment) : String :=
  Text.summary "Environment" [("name", Text.quoted e.name),
    ("nodes", Decimal.digitText e.nodes.length)]

end Environment
end Cascade
