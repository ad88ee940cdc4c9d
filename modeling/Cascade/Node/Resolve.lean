import Cascade.Eval.Class
import Cascade.Eval.Function
import Cascade.Node.Basic
/-!
Resolution for a node. Classes, titles of defined types and functions are loaded once and kept; a
class that is asked for while it is being resolved is handed out as far as it has come.

The evaluator calls back into the node through a resolver. `Node.resolver n` can be nested `n` times,
whatever an evaluation asks for; `Node.depth` is far more than a definition that ends ever needs.
-/
namespace Cascade

/-- A cache of the node: how it is read and how it is put back. -/
structure CacheOf (κ ν : Type) where
  get : Node → Cache κ ν
  set : Node → Cache κ ν → Node

namespace CacheOf

def classes : CacheOf String Nat := ⟨Node.classes, fun n classes => { n with classes }⟩

def resources : CacheOf (String × String) Nat := ⟨Node.resources, fun n resources => { n with resources }⟩

def functions : CacheOf String LoadedFunction :=
  ⟨Node.functions, fun n functions => { n with functions }⟩

variable {κ ν : Type} [DecidableEq κ]

def step {α : Type} (c : CacheOf κ ν) (change : Cache κ ν → α × Cache κ ν) : Act Host α :=
  modifyGet fun m =>
    let (a, cache) := change (c.get m.host.node)
    (a, { m with host := { m.host with node := c.set m.host.node cache } })

def update (c : CacheOf κ ν) (change : Cache κ ν → Cache κ ν) : Act Host Unit :=
  c.step fun cache => ((), change cache)

/-- The value of a key, loaded if need be. While it runs the loader can publish what it has so far; a
key that is asked for by its own loader before that is a cycle. -/
def getOrLoad (c : CacheOf κ ν) (key : κ) (cycle : EvalError)
    (load : (publish : ν → Act Host Unit) → Act Host ν) : Act Host ν := do
  match ← c.step fun cache => cache.claim () key with
  | .hit v | .reentrant (some v) => return v
  | .reentrant none | .wait _ => Act.error cycle
  | .load flight =>
    match ← Act.attempt (load fun v => c.update fun cache => cache.publish flight v) with
    | .ok v =>
      c.update fun cache => cache.settle key flight (.ok v)
      return v
    | .error (.error e) =>
      c.update fun cache => cache.settle key flight (.error e)
      Act.error e
    | .error .exhausted =>
      c.update fun cache => (cache.detach key flight).giveUp flight
      throw .exhausted

end CacheOf

namespace Node

/-- Loads a definition that has to be there. -/
def loadDefinition (kind : DefinitionKind) (name : String) : Act Host Definition := do
  let h := (← get).host
  let (result, world) := h.node.loader.load kind name h.world
  modify fun m => { m with host := { m.host with world } }
  match result with
  | .ok (some d) => return d
  | .ok none => Act.error (.notFound kind name)
  | .error e => Act.error (e.toEvalError kind name)

def sameType (typeName key : String) : Bool := Name.normalize key == typeName

/-- The parameters that the `resources` value of one level gives to a title. -/
def titleParams? (typeName title : String) (v : Value) : Option (Table String Value) :=
  match v with
  | .hash types =>
    match types.find? fun e => sameType typeName e.1 with
    | some (_, .hash titles) =>
      match Table.get? titles title with
      | some (.hash params) => some params
      | _ => none
    | _ => none
  | _ => none

def resourcesKey : String := "resources"

/-- The parameters of a title, from the first level that has it. -/
def seedsOf (c : Compiled) (typeName title : String) : Table String Seed :=
  let found := (c.lookupAll resourcesKey).findSome? fun (v, level) =>
    (titleParams? typeName title v).map fun params =>
      Table.mapValues (fun v => (⟨v, some level⟩ : Seed)) params
  found.getD []

def buildInstance (r : Resolver Host) (publish : Nat → Act Host Unit) (d : Definition)
    (title : Option String) (seeds : Option (Table String Seed)) : Act Host Nat := do
  let i ← createInstance d title seeds
  publish i
  resolveInstance r i
  return i

/-- The number of the instance of a class. -/
def resolveClass (r : Resolver Host) (name : String) : Act Host Nat :=
  let name := Name.normalize name
  CacheOf.classes.getOrLoad name (.cycle .hostClass name) fun publish =>
    Act.mapError (.compilation .hostClass name) do
      let d ← loadDefinition .hostClass name
      buildInstance r publish d none none

/-- The number of the instance of a title of a defined type. -/
def resolveResource (r : Resolver Host) (typeName title : String) : Act Host Nat :=
  let typeName := Name.normalize typeName
  let name := typeName ++ "[" ++ title ++ "]"
  CacheOf.resources.getOrLoad (typeName, title) (.cycle .definedType name) fun publish =>
    Act.mapError (.compilation .definedType name) do
      let d ← loadDefinition .definedType typeName
      let seeds := seedsOf (← get).host.node.compiled typeName title
      buildInstance r publish d (some title) (some seeds)

/-- A function, if there is one of that name. -/
def resolveFunction (name : String) : Act Host (Option LoadedFunction) := do
  let name := Name.normalize name
  let found ← Act.attempt (CacheOf.functions.getOrLoad name (.cycle .function name) fun _ => do
    let definition ← loadDefinition .function name
    let serial ← modifyGet fun m =>
      let (serial, world) := m.host.world.serial
      (serial, { m with host := { m.host with world } })
    return ⟨serial, definition⟩)
  match found with
  | .ok f => return some f
  | .error (.error (.notFound ..)) => return none
  | .error (.error e) => Act.error (.compilation .function name e)
  | .error .exhausted => throw .exhausted

/-- Answers about globals, and no request. -/
def outOfDepth : Resolver Host :=
  { resolveClass := fun _ => throw .exhausted
    resolveFunction := fun _ => throw .exhausted
    invoke := fun _ _ => throw .exhausted
    global? := fun h => h.node.global?
    lookupGlobal := fun h => h.node.lookupGlobal
    registerSource := fun kind name level h =>
      { h with node := h.node.registerSource kind name level } }

/-- A resolver whose requests can be nested this deep. -/
def resolver : (depth : Nat) → Resolver Host
  | 0 => outOfDepth
  | depth + 1 =>
    { outOfDepth with
      resolveClass := fun name => resolveClass (resolver depth) name
      resolveFunction := fun name => do return (← resolveFunction name).map (·.definition)
      invoke := fun d args => invokeFunction (resolver depth) d args }

/-- How deep requests may be nested. -/
def depth : Nat := 1000000

end Node
end Cascade
