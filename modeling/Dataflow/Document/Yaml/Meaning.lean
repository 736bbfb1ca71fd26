import Dataflow.Decimal.Nearest
import Dataflow.Document.Tree
import Dataflow.Text.Hex

/-!
What a YAML scalar can be read as. A plain scalar without a tag means what its text looks like;
with one of the tags for simple types, a scalar in any style is what the tag says or nothing at
all; any other scalar is its text.
-/

namespace Dataflow.Document.Yaml

inductive Style where
  | plain
  | quoted
  | literal
  | folded
deriving DecidableEq

def tagOf (type : String) : String := "tag:yaml.org,2002:" ++ type

/-- A tag of the document's own. -/
def isCustom (tag : Option String) : Bool := tag.any fun t => t.startsWith "!"

def isNull (s : String) : Bool := s = "~" || s = "null" || s = "Null" || s = "NULL"

def boolean? (s : String) : Option Bool :=
  if s = "true" ∨ s = "True" ∨ s = "TRUE" then some true
  else if s = "false" ∨ s = "False" ∨ s = "FALSE" then some false
  else none

/-! ### Numbers -/

/-- The number that some digits stand for in a base of at most 16. -/
def inBase? (base : Nat) (cs : List Char) : Option Nat :=
  if cs = [] then none
  else cs.foldlM (fun n c => (Text.hexValue? c).bind fun d =>
    if d < base then some (base * n + d) else none) 0

def isSign (c : Char) : Bool := c = '+' || c = '-'

/-- Only digits, the first of several a zero. Such a text is no number. -/
def isPadded (cs : List Char) : Bool :=
  let cs := match cs with
    | c :: rest => if isSign c then rest else cs
    | [] => cs
  match cs with
  | '0' :: rest => rest ≠ [] && rest.all Char.isDigit
  | _ => false

/-- Digits after the mark of their base, or in base ten. -/
def magnitude? : List Char → Option Nat
  | '0' :: 'x' :: rest => inBase? 16 rest
  | '0' :: 'o' :: rest => inBase? 8 rest
  | '0' :: 'b' :: rest => inBase? 2 rest
  | cs => if isPadded cs then none else inBase? 10 cs

/-- An integer without a minus. -/
def natural? : List Char → Option Nat
  | '+' :: rest => magnitude? rest
  | cs => magnitude? cs

/-- The literal of an integer. An integer that is too large for one may still be a float; beyond
that, it is nothing. Integers of more than 128 bits are not taken for integers. -/
def integer? (cs : List Char) : Option (Option Literal) :=
  match cs with
  | '-' :: rest =>
    match magnitude? rest with
    | none => none
    | some n =>
      match int64? (-n) with
      | some word => some (some (.integer word))
      | none => if n ≤ Nat.pow 2 127 then some none else none
  | _ =>
    match natural? cs with
    | none => none
    | some n =>
      match int64? n, uint64? n with
      | some word, _ => some (some (.integer word))
      | none, some word => some (some (.float word.toFloat))
      | none, none => if n < Nat.pow 2 128 then some none else none

/-- Infinities and what is no number have names of their own; a decimal must be finite. -/
def float? (s : String) : Option Float :=
  if s = ".inf" ∨ s = ".Inf" ∨ s = ".INF" ∨ s = "+.inf" ∨ s = "+.Inf" ∨ s = "+.INF" then
    some (1.0 / 0.0)
  else if s = "-.inf" ∨ s = "-.Inf" ∨ s = "-.INF" then some (-1.0 / 0.0)
  else if s = ".nan" ∨ s = ".NaN" ∨ s = ".NAN" then some (0.0 / 0.0)
  else (Decimal.read? s.toList).filter Float.isFinite

/-! ### Scalars -/

/-- The literal of a plain scalar without a tag. -/
def plainLiteral? (s : String) : Option Literal :=
  if s = "" ∨ isNull s then none
  else
    match boolean? s with
    | some b => some (.boolean b)
    | none =>
      match integer? s.toList with
      | some l => l
      | none =>
        match if isPadded s.toList then none else float? s with
        | some x => some (.float x)
        | none => some (.text s)

def literal? (style : Style) (tag : Option String) (s : String) : Option Literal :=
  match tag with
  | none => if style = .plain then plainLiteral? s else some (.text s)
  | some t =>
    if t = tagOf "bool" then (boolean? s).map .boolean
    else if t = tagOf "int" then (integer? s.toList).join
    else if t = tagOf "float" then (float? s).map .float
    else if t = tagOf "null" ∨ isCustom tag then none
    else some (.text s)

def presence (style : Style) (tag : Option String) (s : String) : Presence :=
  if tag = some (tagOf "null") then if isNull s then .absent else .contradictory
  else if tag = none ∧ style = .plain ∧ (s = "" ∨ isNull s) then .absent
  else .present

/-- A simple type is looked for in plain scalars, and in literal ones that have its tag. -/
def showsType (type : String) (style : Style) (tag : Option String) : Bool :=
  style = .plain || (style = .literal && tag = some (tagOf type))

/-- A tag of the document's own, on nothing, names an alternative. -/
def choice? (style : Style) (tag : Option String) (s : String) : Option String :=
  if isCustom tag then
    if style = .plain ∧ (s = "" ∨ isNull s) then tag.map fun t => String.ofList (t.toList.drop 1)
    else none
  else some s

def scalar (style : Style) (tag : Option String) (s : String) : Scalar where
  presence := presence style tag s
  hollow := style = .plain && s = ""
  text? := some s
  boolean? := if showsType "bool" style tag then boolean? s else none
  natural? :=
    if showsType "int" style tag then
      (natural? s.toList).bind uint64?
    else none
  choice? := choice? style tag s
  literal? := literal? style tag s

end Dataflow.Document.Yaml
