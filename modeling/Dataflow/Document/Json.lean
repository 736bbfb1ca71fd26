import Dataflow.Decimal.Nearest
import Dataflow.Document.Reading
import Dataflow.Text.Hex

/-!
JSON documents.

A text is a sequence of tokens, and the tokens are taken one by one by a machine that keeps the
lists and tables which are still open. What a text has to keep is only its shape: a number may be
too large and a string may have half a surrogate pair, as long as nobody reads it.
-/

namespace Dataflow.Document.Json

/-! ### Strings -/

/-- A character of a string, or the number that an escape gives. -/
inductive Piece where
  | char (c : Char)
  | unit (n : Nat)

/-- What a letter after a backslash stands for. -/
def escaped? : Char → Option Char
  | '"' => some '"'
  | '\\' => some '\\'
  | '/' => some '/'
  | 'b' => some '\x08'
  | 'f' => some '\x0c'
  | 'n' => some '\n'
  | 'r' => some '\r'
  | 't' => some '\t'
  | _ => none

/-- The pieces up to the closing quote, and what follows it. -/
def stringBody? : List Char → Option (List Piece × List Char)
  | [] => none
  | '"' :: rest => some ([], rest)
  | '\\' :: 'u' :: a :: b :: c :: d :: rest => do
    let n ← Text.hexNumber? [a, b, c, d]
    let (pieces, rest) ← stringBody? rest
    return (.unit n :: pieces, rest)
  | '\\' :: e :: rest => do
    let c ← escaped? e
    let (pieces, rest) ← stringBody? rest
    return (.char c :: pieces, rest)
  | c :: rest =>
    if c.toNat < 0x20 ∨ c = '\\' then none
    else do
      let (pieces, rest) ← stringBody? rest
      return (.char c :: pieces, rest)

/-- The characters of a string. Surrogates come in pairs, the high one first. -/
def chars? : List Piece → Option (List Char)
  | [] => some []
  | .char c :: rest => (chars? rest).map (c :: ·)
  | .unit n :: rest =>
    if n < 0xd800 ∨ 0xe000 ≤ n then (chars? rest).map (Char.ofNat n :: ·)
    else
      match rest with
      | .unit low :: rest =>
        if n < 0xdc00 ∧ 0xdc00 ≤ low ∧ low < 0xe000 then
          (chars? rest).map (Char.ofNat (0x10000 + (n - 0xd800) * 0x400 + (low - 0xdc00)) :: ·)
        else none
      | _ => none

def ofString (pieces : List Piece) : Scalar :=
  match chars? pieces with
  | some cs => .ofText (String.ofList cs)
  | none => {}

/-! ### Numbers -/

/-- The significand from as many digits as fit in its word, and how many digits are left. -/
def gather : UInt64 → List Char → UInt64 × Nat
  | n, [] => (n, 0)
  | n, c :: rest =>
    match uint64? (10 * n.toNat + (c.toNat - '0'.toNat)) with
    | some m => gather m rest
    | none => (n, rest.length + 1)

/-- Powers of ten are exact or rounded once. -/
def powerOfTen (n : Nat) : Float := Decimal.nearest 1 n

/-- `x` divided by a power of ten, in steps of at most 308 places. -/
def divided : (steps : Nat) → Float → Nat → Float
  | 0, x, _ => x
  | steps + 1, x, places =>
    if places ≤ 308 then x / powerOfTen places
    else if x == 0 then x
    else divided steps (x / powerOfTen 308) (places - 308)

/-- `significand * 10 ^ exponent`, computed in floating point; none if it is too large. -/
def scaled? (significand : UInt64) (exponent : Int) : Option Float :=
  let x := significand.toFloat
  if exponent < 0 then some (divided (exponent.natAbs / 308 + 1) x exponent.natAbs)
  else if x == 0 then some x
  else if 308 < exponent then none
  else
    let y := x * powerOfTen exponent.toNat
    if y.isInf then none else some y

/-- A number as it is written. -/
structure Numeral where
  negative : Bool
  whole : List Char
  /-- The digits after the point, if there is one. -/
  places : Option (List Char)
  /-- The sign and the digits of the exponent, if there is one. -/
  power : Option (Bool × List Char)

namespace Numeral

/-- The value without the sign, as a float. A digit that no longer fits makes the integer part
ten times as large, and does nothing after the point. -/
def magnitude? (n : Numeral) : Option Float :=
  let (m, dropped) := gather 0 n.whole
  let (m, used) := match n.places with
    | none => (m, 0)
    | some ds => let (m, left) := gather m ds; (m, ds.length - left)
  let start : Int := (dropped : Int) - used
  match n.power with
  | none => scaled? m start
  | some (down, ds) =>
    let e := Decimal.ofDigits ds
    if e < Nat.pow 2 31 then scaled? m (if down then start - e else start + e)
    else if m = 0 ∨ down then some 0
    else none

/-- An integer that fits its 64 bits is one; any other number is a float, and so is minus zero. -/
def scalar (n : Numeral) : Scalar :=
  let float : Option Literal :=
    n.magnitude?.map fun x => .float (if n.negative then -x else x)
  let m := Decimal.ofDigits n.whole
  if n.places.isSome ∨ n.power.isSome then { literal? := float }
  else if n.negative then
    match if m = 0 then none else int64? (-m) with
    | some word => { literal? := some (.integer word) }
    | none => { literal? := float }
  else
    { natural? := uint64? m
      literal? := ((int64? m).map .integer).or float }

/-- Digits, of which there is at least one. -/
def digits? (cs : List Char) : Option (List Char × List Char) :=
  match cs.span Char.isDigit with
  | ([], _) => none
  | (ds, rest) => some (ds, rest)

/-- The number in front of a text, and what follows it. -/
def ofChars? (cs : List Char) : Option (Numeral × List Char) := do
  let (negative, cs) := match cs with
    | '-' :: rest => (true, rest)
    | _ => (false, cs)
  let (whole, cs) ← match cs with
    | '0' :: rest => some (['0'], rest)
    | _ => digits? cs
  let (places, cs) ← match cs with
    | '.' :: rest => (digits? rest).map fun (ds, rest) => (some ds, rest)
    | _ => some (none, cs)
  match cs with
  | [] => return (⟨negative, whole, places, none⟩, [])
  | c :: rest =>
    if c ≠ 'e' ∧ c ≠ 'E' then return (⟨negative, whole, places, none⟩, cs)
    let (down, rest) := match rest with
      | '-' :: rest => (true, rest)
      | '+' :: rest => (false, rest)
      | _ => (false, rest)
    let (ds, rest) ← digits? rest
    return (⟨negative, whole, places, some (down, ds)⟩, rest)

end Numeral

/-! ### Tokens -/

inductive Token where
  | openList
  | closeList
  | openTable
  | closeTable
  | comma
  | colon
  | string (s : Scalar)
  | atom (s : Scalar)

/-- The token in front of a text, and what follows it. -/
def token? : List Char → Option (Token × List Char)
  | '[' :: rest => some (.openList, rest)
  | ']' :: rest => some (.closeList, rest)
  | '\x7b' :: rest => some (.openTable, rest)
  | '\x7d' :: rest => some (.closeTable, rest)
  | ',' :: rest => some (.comma, rest)
  | ':' :: rest => some (.colon, rest)
  | '"' :: rest => do
    let (pieces, rest) ← stringBody? rest
    return (.string (ofString pieces), rest)
  | 't' :: 'r' :: 'u' :: 'e' :: rest => some (.atom (.ofBool true), rest)
  | 'f' :: 'a' :: 'l' :: 's' :: 'e' :: rest => some (.atom (.ofBool false), rest)
  | 'n' :: 'u' :: 'l' :: 'l' :: rest => some (.atom .nothing, rest)
  | cs => do
    let (n, rest) ← Numeral.ofChars? cs
    return (.atom n.scalar, rest)

def isBlank (c : Char) : Bool := c = ' ' || c = '\t' || c = '\n' || c = '\r'

/-- All tokens of a text, at most one for each of its characters. -/
def tokens? (text : List Char) : Option (List Token) := go text.length text
where
  go : Nat → List Char → Option (List Token)
    | fuel, cs =>
      match fuel, cs.dropWhile isBlank with
      | _, [] => some []
      | 0, _ => none
      | fuel + 1, cs => do
        let (t, rest) ← token? cs
        return t :: (← go fuel rest)

/-! ### Trees -/

/-- What may come next. -/
inductive Awaited where
  | value
  | itemOrEnd
  | keyOrEnd
  | key
  | colon
  | separator
deriving DecidableEq

/-- A list or table that is still open, with its entries from the last to the first. -/
inductive Frame where
  | list (done : List Tree)
  | table (done : List (Tree × Tree)) (key : Tree)

structure Machine where
  frames : List Frame := []
  awaited : Awaited := .value
  root : Option Tree := none

namespace Machine

/-- A value is complete. -/
def accept (m : Machine) (t : Tree) : Machine :=
  match m.frames with
  | [] => { m with awaited := .separator, root := some t }
  | .list done :: rest => { m with frames := .list (t :: done) :: rest, awaited := .separator }
  | .table done key :: rest =>
    { m with frames := .table ((key, t) :: done) key :: rest, awaited := .separator }

def awaitsValue (m : Machine) : Bool := m.awaited = .value || m.awaited = .itemOrEnd

/-- Key texts are read without regard to what they say. -/
def step (m : Machine) (t : Token) : Option Machine :=
  match t, m.frames with
  | .openList, _ =>
    if m.awaitsValue then some { m with frames := .list [] :: m.frames, awaited := .itemOrEnd }
    else none
  | .openTable, _ =>
    if m.awaitsValue then
      some { m with frames := .table [] (.scalar {}) :: m.frames, awaited := .keyOrEnd }
    else none
  | .closeList, .list done :: rest =>
    if m.awaited = .itemOrEnd ∨ m.awaited = .separator then
      some ({ m with frames := rest }.accept (.list done.reverse))
    else none
  | .closeTable, .table done _ :: rest =>
    if m.awaited = .keyOrEnd ∨ m.awaited = .separator then
      some ({ m with frames := rest }.accept (.table done.reverse))
    else none
  | .comma, .list _ :: _ =>
    if m.awaited = .separator then some { m with awaited := .value } else none
  | .comma, .table _ _ :: _ =>
    if m.awaited = .separator then some { m with awaited := .key } else none
  | .colon, _ => if m.awaited = .colon then some { m with awaited := .value } else none
  | .string s, .table done _ :: rest =>
    if m.awaited = .key ∨ m.awaited = .keyOrEnd then
      some { m with frames := .table done (.scalar s) :: rest, awaited := .colon }
    else if m.awaitsValue then some (m.accept (.scalar s))
    else none
  | .string s, _ => if m.awaitsValue then some (m.accept (.scalar s)) else none
  | .atom s, _ => if m.awaitsValue then some (m.accept (.scalar s)) else none
  | _, _ => none

/-- The whole value, once nothing is open. -/
def result? (m : Machine) : Option Tree :=
  match m.frames with
  | [] => m.root
  | _ => none

end Machine

def tree? (text : String) : Option Tree := do
  let m ← (← tokens? text.toList).foldlM Machine.step {}
  m.result?

def isNothing : Tree → Bool
  | .scalar s => s.presence = .absent
  | _ => false

def source? (text : String) : Option Source := do
  return { root := ← tree? text, depth := 127, positional := true, saysNothing := isNothing }

end Dataflow.Document.Json
