import Dataflow.Document.Reading
import Dataflow.Document.Yaml.Token

/-!
From the tokens of a YAML document to its tree. An anchor gets a number when its node begins, and
what has the number when the document ends is what references to it stand for.
-/

namespace Dataflow.Document.Yaml

structure Draft where
  tokens : List Token
  /-- What the handles of tags stand for. -/
  handles : List (String × String) := [("!", "!"), ("!!", "tag:yaml.org,2002:")]
  anchors : List (String × Nat) := []
  targets : List (Nat × Tree) := []
  /-- How many scalars, references, and beginnings and ends of collections there are. -/
  events : Nat := 0

abbrev Building := StateT Draft Option

namespace Building

def next? : Building (Option Token) := do return (← get).tokens.head?

def advance : Building Unit := modify fun d => { d with tokens := d.tokens.tail }

def skip (t : Token) : Building Bool := do
  if (← next?) = some t then
    advance
    return true
  else return false

def expect (t : Token) : Building Unit := do
  unless ← skip t do failure

/-- One of some tokens comes next, or the text is at its end. -/
def isNext (ts : List Token) : Building Bool := do
  match ← next? with
  | none => return true
  | some t => return t ∈ ts

def count (n : Nat) : Building Unit := modify fun d => { d with events := d.events + n }

/-- The number for an anchor: how many other names there are. A name that is used again gives up
the number that it had. -/
def number (name : String) : Building Nat := do
  let d ← get
  let id := d.anchors.length
  set { d with anchors := (name, id) :: d.anchors.filter (·.1 ≠ name) }
  return id

def settle (id : Option Nat) (t : Tree) : Building Tree := do
  match id with
  | none => return t
  | some id =>
    modify fun d => { d with targets := (id, t) :: d.targets }
    return t

def resolve (handle suffix : String) : Building String := do
  if handle = "" then return suffix
  else return (← StateT.lift ((← get).handles.lookup handle)) ++ suffix

end Building

open Building

/-- The anchor and the tag of a node, in any order. -/
structure Properties where
  anchor : Option Nat := none
  tag : Option String := none
  given : Bool := false

def anchorOf : Building (Option String) := do
  match ← next? with
  | some (.anchor name) => advance; return some name
  | _ => return none

def tagOfNode : Building (Option String) := do
  match ← next? with
  | some (.tag handle suffix) => advance; return some (← resolve handle suffix)
  | _ => return none

def properties : Building Properties := do
  let before ← anchorOf
  let tag ← tagOfNode
  let name ← if before.isSome then pure before else anchorOf
  let id ← name.mapM number
  return { anchor := id, tag := tag, given := name.isSome || tag.isSome }

def scalarNode (p : Properties) (style : Style) (s : String) : Building Tree := do
  count 1
  settle p.anchor (.scalar (scalar style p.tag s))

/-- A scalar that is written. The tag that is only an exclamation mark says nothing about it. -/
def writtenScalar (p : Properties) (style : Style) (s : String) : Building Tree :=
  scalarNode { p with tag := p.tag.filter (· ≠ "!") } style s

/-- Where nothing is written. -/
def nothing : Building Tree := scalarNode {} .plain ""

/-- Where nothing is written but properties. -/
def onlyProperties (p : Properties) : Building Tree :=
  if p.given then scalarNode p .plain "" else failure

/-- A list or a table with its properties. -/
def collection (p : Properties) (content : Building Tree) : Building Tree := do
  count 2
  let t ← content
  settle p.anchor (if isCustom p.tag then .typed t else t)

mutual

/-- A node. `block` says whether indentation may show its structure, and `flat` whether a sequence
may stand at the indentation of what it belongs to. -/
def node : (fuel : Nat) → (block flat : Bool) → Building Tree
  | 0, _, _ => failure
  | fuel + 1, block, flat => do
    if let some (.alias name) ← next? then
      advance
      count 1
      return .reference (← StateT.lift ((← get).anchors.lookup name))
    let p ← properties
    match ← next? with
    | some .blockEntry =>
      if flat then collection p (.list <$> flatItems fuel)
      else onlyProperties p
    | some (.scalar style s) =>
      advance
      writtenScalar p style s
    | some .flowSequence =>
      advance
      collection p (.list <$> flowItems fuel true)
    | some .flowMapping =>
      advance
      collection p (.table <$> flowEntries fuel true)
    | some .blockSequence =>
      if block then
        advance
        collection p (.list <$> blockItems fuel)
      else onlyProperties p
    | some .blockMapping =>
      if block then
        advance
        collection p (.table <$> blockEntries fuel)
      else onlyProperties p
    | _ => onlyProperties p

/-- A node, unless one of some tokens shows that there is none. -/
def nodeUnless : (fuel : Nat) → (ends : List Token) → (block flat : Bool) → Building Tree
  | 0, _, _, _ => failure
  | fuel + 1, ends, block, flat => do
    if ← isNext ends then nothing else node fuel block flat

def flatItems : (fuel : Nat) → Building (List Tree)
  | 0 => failure
  | fuel + 1 => do
    if ← skip .blockEntry then
      let t ← nodeUnless fuel [.blockEntry, .key, .value, .blockEnd] true false
      return t :: (← flatItems fuel)
    else return []

def blockItems : (fuel : Nat) → Building (List Tree)
  | 0 => failure
  | fuel + 1 => do
    if ← skip .blockEntry then
      let t ← nodeUnless fuel [.blockEntry, .blockEnd] true false
      return t :: (← blockItems fuel)
    else
      expect .blockEnd
      return []

def blockEntries : (fuel : Nat) → Building (List (Tree × Tree))
  | 0 => failure
  | fuel + 1 => do
    if ← skip .key then
      let k ← nodeUnless fuel [.key, .value, .blockEnd] true true
      let v ← if ← skip .value then nodeUnless fuel [.key, .value, .blockEnd] true true else nothing
      return (k, v) :: (← blockEntries fuel)
    else
      expect .blockEnd
      return []

/-- A value inside brackets. -/
def flowValue : (fuel : Nat) → (ends : List Token) → Building Tree
  | 0, _ => failure
  | fuel + 1, ends => do
    if ← skip .value then nodeUnless fuel ends false false else nothing

/-- The items of a sequence in brackets; one that has a key is a mapping of its own. -/
def flowItems : (fuel : Nat) → (first : Bool) → Building (List Tree)
  | 0, _ => failure
  | fuel + 1, first => do
    if ← skip .flowSequenceEnd then return []
    unless first do expect .flowEntry
    if ← skip .flowSequenceEnd then return []
    if ← skip .key then
      count 2
      let k ← node fuel false false
      let v ← flowValue fuel [.flowEntry, .flowSequenceEnd]
      return .table [(k, v)] :: (← flowItems fuel false)
    else
      let t ← node fuel false false
      return t :: (← flowItems fuel false)

def flowEntries : (fuel : Nat) → (first : Bool) → Building (List (Tree × Tree))
  | 0, _ => failure
  | fuel + 1, first => do
    if ← skip .flowMappingEnd then return []
    unless first do expect .flowEntry
    if ← skip .flowMappingEnd then return []
    let ends : List Token := [.flowEntry, .flowMappingEnd]
    if ← skip .key then
      let k ← nodeUnless fuel (.value :: ends) false false
      let v ← flowValue fuel ends
      return (k, v) :: (← flowEntries fuel false)
    else
      let k ← node fuel false false
      let v ← nothing
      return (k, v) :: (← flowEntries fuel false)

end

end Dataflow.Document.Yaml
