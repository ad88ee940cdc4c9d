import Cascade.Yaml.Plain
import Cascade.Yaml.Tree
/-!
From a YAML text to the node it means. Tags and plain scalars get their values, a key may not come
twice, and an alias stands for the node its anchor names. The work that aliases ask for is bounded by
the size of the document, and its depth by `maxDepth`.
-/
namespace Cascade.Yaml

def maxDepth : Nat := 128

/-- The nodes that anchors name. An anchor gets the number of names known before it, and a name used
again gets a new number; of two nodes with one number the later one counts. -/
structure Anchors where
  numbers : Table String Nat
  /-- With each node a stamp, which tells a node from a later one under its number. -/
  nodes : Table Nat (Nat × Tree)
  stamps : Nat

abbrev Numbering := StateT Anchors (Except YamlError)

def declareAnchor (p : Properties) : Numbering (Option (Nat × Nat)) := do
  match p.anchor with
  | none => return none
  | some name =>
    let a ← get
    let number := a.numbers.length
    set { numbers := a.numbers.set name number
          nodes := a.nodes.set number (a.stamps, .missing)
          stamps := a.stamps + 1 : Anchors }
    return some (number, a.stamps)

def fillAnchor (declared : Option (Nat × Nat)) (t : Tree) : Numbering Unit := do
  match declared with
  | none => pure ()
  | some (number, stamp) =>
    modify fun a =>
      if (a.nodes.get? number).any (·.1 = stamp) then
        { a with nodes := a.nodes.set number (stamp, t) }
      else a

mutual
/-- Replaces the names of aliases by numbers, in the order of the text. -/
def number : Tree → Numbering Tree
  | .scalar p text style => do
    fillAnchor (← declareAnchor p) (.scalar p text style)
    return .scalar p text style
  | .sequence p items => do
    let declared ← declareAnchor p
    let t := Tree.sequence p (← numberItems items)
    fillAnchor declared t
    return t
  | .mapping p entries => do
    let declared ← declareAnchor p
    let t := Tree.mapping p (← numberEntries entries)
    fillAnchor declared t
    return t
  | .reference name => do
    match (← get).numbers.get? name with
    | some n => return .reference (Decimal.digitText n)
    | none => throw (.unknownAnchor name)

def numberItems : List Tree → Numbering (List Tree)
  | [] => return []
  | t :: ts => do
    let t ← number t
    return t :: (← numberItems ts)

def numberEntries : List (Tree × Tree) → Numbering (List (Tree × Tree))
  | [] => return []
  | (k, v) :: es => do
    let k ← number k
    let v ← number v
    return (k, v) :: (← numberEntries es)
end

mutual
/-- How many steps it takes to walk through a tree once. -/
def weight : Tree → Nat
  | .scalar .. | .reference _ => 1
  | .sequence _ items => weightItems items + 2
  | .mapping _ entries => weightEntries entries + 2

def weightItems : List Tree → Nat
  | [] => 0
  | t :: ts => weight t + weightItems ts

def weightEntries : List (Tree × Tree) → Nat
  | [] => 0
  | (k, v) :: es => weight k + weight v + weightEntries es
end

/-- The number of aliases that may still be followed. -/
abbrev Composing := StateT Nat (Except YamlError)

/-- A scalar below its own tag, if it has one. -/
def untaggedScalar (text : String) (style : ScalarStyle) : Except YamlError Yaml :=
  if style = .plain then ofPlain text else .ok (string text)

def scalarValue (tag : Option Tag) (text : String) (style : ScalarStyle) : Except YamlError Yaml :=
  match tag with
  | some (.global name) => (ofCore? name text).getD (.ok (string text))
  | _ => untaggedScalar text style

def underTag (tag : Option Tag) (v : Yaml) : Yaml :=
  match tag with
  | some (.own name) => tagged name v
  | _ => v

def isOwn (tag : Option Tag) : Bool :=
  match tag with
  | some (.own _) => true
  | _ => false

def addEntry (entries : List (Yaml × Yaml)) (k v : Yaml) : Except YamlError (List (Yaml × Yaml)) :=
  if entries.any fun e => e.1.same k then .error .duplicateKey else .ok (entries ++ [(k, v)])

/-- The tree that an alias leads to; any other tree itself. -/
def follow (nodes : Table String Tree) (t : Tree) : Composing Tree := do
  match t with
  | .reference name =>
    match ← get with
    | 0 => throw .tooManyAliases
    | left + 1 =>
      set left
      match nodes.get? name with
      | some t => return t
      | none => throw (.unknownAnchor name)
  | t => return t

/-- The value of a tree that is at most `depth` collections deep. `tagless` takes its own tag away from
it: the keys of a mapping under a tag have none. -/
def compose (nodes : Table String Tree) : (depth : Nat) → (tagless : Bool) → Tree → Composing Yaml
  | depth, tagless, t => do
    let tagless := tagless && !t.isReference
    let effective := fun p : Properties => if tagless then none else p.tag
    match ← follow nodes t with
    | .scalar p text style =>
      return underTag (effective p) (← scalarValue (effective p) text style)
    | .sequence p items =>
      match depth with
      | 0 => throw .tooDeep
      | depth + 1 =>
        let items ← items.mapM (compose nodes depth false)
        return underTag (effective p) (sequence items)
    | .mapping p entries =>
      match depth with
      | 0 => throw .tooDeep
      | depth + 1 =>
        let entries ← entries.foldlM (fun done e => do
          let k ← compose nodes depth (tagless || isOwn p.tag) e.1
          let v ← compose nodes depth false e.2
          addEntry done k v) []
        return underTag (effective p) (mapping entries)
    | .reference name => throw (.unknownAnchor name)

def ofTree (t : Tree) : Except YamlError Yaml := do
  let (t, anchors) ← (number t).run ⟨[], [], 0⟩
  let nodes : Table String Tree := anchors.nodes.map fun e => (Decimal.digitText e.1, e.2.2)
  (compose nodes maxDepth false t).run' (100 * weight t)

/-- The document of a text; an empty text is null. -/
def parse (text : String) : Except YamlError Yaml := do
  match ← Tree.ofTokens (← tokens text) with
  | none => return null
  | some t => ofTree t

end Cascade.Yaml
