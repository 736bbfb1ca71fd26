import Dataflow.Document.Toml.Value

/-!
TOML documents. A document is a sequence of lines; a header opens a table for the lines after it,
any other line gives a value to a key of the open table.
-/

namespace Dataflow.Document.Toml

open Scan

/-- The whole table, and the keys of the one that is open. -/
structure Draft where
  root : Table := .new .own
  opened : List String := []

namespace Draft

/-- Lines in a table that was opened go through the tables on the way as they are. -/
def change (d : Draft) (path : List String) (f : Table → Option Table) : Option Table :=
  d.root.within .onTheWay f path

def header (next : Bool) (path : List String) (d : Draft) : Option Draft := do
  let key := path.getLastD ""
  let root ← d.change path.dropLast (if next then Table.openNext key else Table.openTable key)
  return ⟨root, path⟩

def define (path : List String) (v : Tree) (d : Draft) : Option Draft := do
  let root ← d.change d.opened (Table.define path.dropLast (path.getLastD "") v)
  return { d with root := root }

end Draft

/-- A line that is not blank. -/
def line (d : Draft) : Scan Draft := do
  match ← next? with
  | some '[' =>
    let next ← skipText "[["
    unless next do expect '['
    let path ← keys
    expect ']'
    if next then expect ']'
    endOfLine
    StateT.lift (d.header next path)
  | _ =>
    let path ← keys
    expect '='
    blanks
    let v ← value limit
    endOfLine
    StateT.lift (d.define path v)

/-- All lines from here on, of which there are at most `count`. -/
def lines : (count : Nat) → Draft → Scan Draft
  | 0, _ => failure
  | count + 1, d => do
    blanks
    match ← next? with
    | none => return d
    | some '\n' | some '#' =>
      endOfLine
      lines count d
    | _ => lines count (← line d)

/-- A table or list without content. -/
def isEmpty : Tree → Bool
  | .table [] => true
  | .list [] => true
  | _ => false

/-- A mark for the order of bytes may stand in front of a document. -/
def source? (text : String) : Option Source := do
  let cs := withoutReturns text.toList
  let cs := if cs.head? = some '\ufeff' then cs.tail else cs
  let (d, _) ← (lines (cs.length + 1) {}).run cs
  let root := d.root.tree
  return { root := root, depth := root.height, saysNothing := isEmpty }

end Dataflow.Document.Toml
