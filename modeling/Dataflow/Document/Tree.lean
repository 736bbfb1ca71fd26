import Dataflow.Definition
import Dataflow.Word

/-!
What is common to the formats of documents: a document is a tree of scalars, lists and tables.

The formats differ in what a scalar can be read as. A scalar therefore carries every reading that
its format allows, and whoever knows what is wanted takes the one he needs.
-/

namespace Dataflow.Document

/-- Whether a scalar counts, where something may be left out. -/
inductive Presence where
  | present
  | absent
  /-- It says that it is nothing and has content nevertheless. -/
  | contradictory
deriving DecidableEq, Inhabited

structure Scalar where
  presence : Presence := .present
  /-- Does for a list, or a table, without entries. -/
  hollow : Bool := false
  text? : Option String := none
  boolean? : Option Bool := none
  natural? : Option UInt64 := none
  /-- As one of some alternatives that have names. -/
  choice? : Option String := none
  literal? : Option Literal := none
deriving Inhabited

namespace Scalar

def ofText (s : String) : Scalar :=
  { text? := some s, choice? := some s, literal? := some (.text s) }

def ofBool (b : Bool) : Scalar := { boolean? := some b, literal? := some (.boolean b) }

def nothing : Scalar := { presence := .absent }

end Scalar

inductive Tree where
  | scalar (s : Scalar)
  | list (items : List Tree)
  /-- In the order of the document; keys may occur again. -/
  | table (entries : List (Tree × Tree))
  /-- A list or table with a type of its own. -/
  | typed (content : Tree)
  /-- Stands for the tree that the document has under this number. -/
  | reference (target : Nat)
deriving Inhabited

namespace Tree

def text (s : String) : Tree := scalar (.ofText s)

mutual

/-- How many lists and tables are inside each other. -/
def height : Tree → Nat
  | scalar _ => 0
  | list items => heightItems items + 1
  | table entries => heightEntries entries + 1
  | typed content => height content
  | reference _ => 0

def heightItems : List Tree → Nat
  | [] => 0
  | t :: rest => max (height t) (heightItems rest)

def heightEntry : Tree × Tree → Nat
  | (key, t) => max (height key) (height t)

def heightEntries : List (Tree × Tree) → Nat
  | [] => 0
  | e :: rest => max (heightEntry e) (heightEntries rest)

end

end Tree

end Dataflow.Document
