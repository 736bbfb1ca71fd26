import Dataflow.Document.Tree

/-!
Tables of TOML texts while they are put together. A table may be given in parts, as long as none
of them was given before; whether a part may still be added depends on how the table came about.
-/

namespace Dataflow.Document.Toml

/-- How a table came about. -/
inductive Origin where
  /-- It has a header, or braces, of its own. -/
  | own
  /-- It lies on the way to a header. -/
  | onTheWay
  /-- It lies on the way to a joined key. -/
  | joined
deriving DecidableEq

mutual

inductive Item where
  | value (t : Tree)
  | table (t : Table)
  /-- A list of tables, each with a header of its own; the last one can still be added to. -/
  | tables (earlier : List Table) (last : Table)

structure Table where
  origin : Origin
  entries : List (String × Item)

end

namespace Table

def new (origin : Origin) : Table := ⟨origin, []⟩

/-- The table with what is under `key` replaced, or put at the end. -/
def set (t : Table) (key : String) (item : Item) : Table :=
  if (t.entries.lookup key).isSome then
    { t with entries := t.entries.map fun e => if e.1 = key then (key, item) else e }
  else { t with entries := t.entries ++ [(key, item)] }

/-- Changes the table at the end of some keys; tables that are missing on the way are made.
A joined key passes through no table that is not on the way to others too. -/
def within (origin : Origin) (change : Table → Option Table) :
    List String → Table → Option Table
  | [], t => change t
  | key :: rest, t =>
    match t.entries.lookup key with
    | none => do return t.set key (.table (← within origin change rest (new origin)))
    | some (.value _) => none
    | some (.tables earlier last) => do
      return t.set key (.tables earlier (← within origin change rest last))
    | some (.table inner) =>
      if origin = .joined ∧ inner.origin = .own then none
      else do return t.set key (.table (← within origin change rest inner))

/-- Gives a value to a key; the keys in front of it are joined to it. -/
def define (way : List String) (key : String) (v : Tree) (t : Table) : Option Table :=
  t.within .joined (fun t =>
    if way ≠ [] ∧ t.origin ≠ .joined then none
    else if (t.entries.lookup key).isSome then none
    else some (t.set key (.value v))) way

/-- Opens the table `key`, which must not have been opened before. -/
def openTable (key : String) (t : Table) : Option Table :=
  match t.entries.lookup key with
  | none => some (t.set key (.table (new .own)))
  | some (.table inner) =>
    if inner.origin ≠ .onTheWay then none
    else some (t.set key (.table { inner with origin := .own }))
  | some _ => none

/-- Opens one more table in the list `key`. -/
def openNext (key : String) (t : Table) : Option Table :=
  match t.entries.lookup key with
  | none => some (t.set key (.tables [] (new .own)))
  | some (.tables earlier last) => some (t.set key (.tables (earlier ++ [last]) (new .own)))
  | some _ => none

end Table

mutual

def Item.tree : Item → Tree
  | .value t => t
  | .table t => t.tree
  | .tables earlier last => .list (treesOf earlier ++ [last.tree])

def Table.tree : Table → Tree
  | ⟨_, entries⟩ => .table (entriesOf entries)

def treesOf : List Table → List Tree
  | [] => []
  | t :: rest => t.tree :: treesOf rest

def entryOf : String × Item → Tree × Tree
  | (key, item) => (.text key, item.tree)

def entriesOf : List (String × Item) → List (Tree × Tree)
  | [] => []
  | e :: rest => entryOf e :: entriesOf rest

end

end Dataflow.Document.Toml
