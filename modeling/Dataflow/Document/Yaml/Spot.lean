/-!
YAML texts as sequences of characters that know where they stand. Lines are counted from their
breaks; every way to break a line but the two separators of Unicode is the same break.
-/

namespace Dataflow.Document.Yaml

structure Spot where
  char : Char
  line : Nat
  column : Nat
  /-- How many characters stand in front of it. -/
  index : Nat
deriving Inhabited

/-- Breaks of lines, after they are unified. -/
def isBreak (c : Char) : Bool := c = '\n' || c = '\u2028' || c = '\u2029'

def isBlank (c : Char) : Bool := c = ' ' || c = '\t'

/-- The letters of names. -/
def isWordChar (c : Char) : Bool := c.isAlphanum || c = '_' || c = '-'

/-- No other character may occur in a text, wherever that is. -/
def isAdmissible (c : Char) : Bool :=
  let n := c.toNat
  n = 0x09 || n = 0x0a || n = 0x0d || (0x20 ≤ n && n ≤ 0x7e) || n = 0x85 ||
    (0xa0 ≤ n && n ≤ 0xfffd && n ≠ 0xfeff) || 0x10000 ≤ n

/-- The text with one character for each break that needs no character of its own. -/
def unified : List Char → List Char
  | '\r' :: '\n' :: rest => '\n' :: unified rest
  | c :: rest => (if c = '\r' ∨ c = '\u0085' then '\n' else c) :: unified rest
  | [] => []

def spotsFrom (line column index : Nat) : List Char → List Spot
  | [] => []
  | c :: rest =>
    ⟨c, line, column, index⟩ ::
      if isBreak c then spotsFrom (line + 1) 0 (index + 1) rest
      else spotsFrom line (column + 1) (index + 1) rest

/-- The spots of a text, without the mark for the order of bytes that may stand in front. -/
def spots? (text : String) : Option (List Spot) :=
  let cs := text.toList
  let cs := if cs.head? = some '\ufeff' then cs.tail else cs
  if cs.all isAdmissible then some (spotsFrom 0 0 0 (unified cs)) else none

/-- The character in front. -/
def first? (ss : List Spot) : Option Char := ss.head?.map Spot.char

/-- Nothing visible stands in front. -/
def endsHere (ss : List Spot) : Bool := (first? ss).all fun c => isBlank c || isBreak c

/-- Three times `c` stand alone at the beginning of a line. -/
def isMarker (c : Char) : List Spot → Bool
  | x :: y :: z :: rest =>
    x.column = 0 && x.char = c && y.char = c && z.char = c && endsHere rest
  | _ => false

/-- The mark for the beginning or for the end of a document. -/
def atMarker (ss : List Spot) : Bool := isMarker '-' ss || isMarker '.' ss

def text (ss : List Spot) : String := String.ofList (ss.map Spot.char)

end Dataflow.Document.Yaml
