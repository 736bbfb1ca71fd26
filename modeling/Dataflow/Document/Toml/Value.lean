import Dataflow.Document.Toml.Moment
import Dataflow.Document.Toml.Table

/-!
Values in TOML texts.
-/

namespace Dataflow.Document.Toml

open Scan

/-! ### Numbers -/

/-- Digits with single underscores between them; the underscores are left out. -/
def groups (isDigit : Char → Bool) : List Char → Option (List Char × List Char)
  | [] => none
  | c :: rest => if isDigit c then some (go [c] rest) else none
where
  go (taken : List Char) : List Char → List Char × List Char
    | '_' :: c :: rest =>
      if isDigit c then go (c :: taken) rest else (taken.reverse, '_' :: c :: rest)
    | c :: rest => if isDigit c then go (c :: taken) rest else (taken.reverse, c :: rest)
    | [] => (taken.reverse, [])

def ofInt (n : Int) : Option Scalar :=
  (int64? n).map fun word =>
    { natural? := if 0 ≤ n then uint64? n.toNat else none
      literal? := some (.integer word) }

def ofFloat (x : Float) : Scalar := { literal? := some (.float x) }

/-- An integer to a base of 16, 8 or 2, after its mark. -/
def based (base : Nat) (isDigit : Char → Bool) : Scan Scalar := do
  let ds ← ofFunction (groups isDigit)
  StateT.lift (ofInt (ds.foldl (fun n c => base * n + ((Text.hexValue? c).getD 0 : Int)) 0))

/-- The digits of an integer. Only zero itself begins with a zero. -/
def wholeDigits : Scan (List Char) := do
  if ← skip '0' then return ['0'] else ofFunction (groups Char.isDigit)

/-- The power of ten of a float, with its mark. -/
def power : Scan (List Char) := do
  if ← (do if ← skip 'e' then return true else skip 'E') then
    let sign := if ← skip '-' then ['-'] else []
    if sign = [] then
      let _ ← skip '+'
    return 'e' :: sign ++ (← ofFunction (groups Char.isDigit))
  else return []

/-- A number in base ten. A float that is too large is an error, unless it is negative. -/
def decimal (sign : List Char) : Scan Scalar := do
  let whole ← wholeDigits
  let places ← if ← skip '.' then some <$> ofFunction (groups Char.isDigit) else pure none
  let power ← power
  if places = none ∧ power = [] then
    let n : Int := Decimal.ofDigits whole
    StateT.lift (ofInt (if sign = ['-'] then -n else n))
  else
    let point := match places with
      | none => []
      | some ds => '.' :: ds
    let x ← StateT.lift (Decimal.read? (sign ++ whole ++ point ++ power))
    if x.isInf && 0 < x then failure else return ofFloat x

def isHexDigit (c : Char) : Bool := (Text.hexValue? c).isSome

def number : Scan Scalar := do
  if ← skipText "0x" then based 16 isHexDigit
  else if ← skipText "0o" then based 8 fun c => '0' ≤ c && c ≤ '7'
  else if ← skipText "0b" then based 2 fun c => c = '0' || c = '1'
  else
    let sign := if ← skip '-' then ['-'] else []
    if sign = [] then
      let _ ← skip '+'
    let signed (x : Float) : Float := if sign = [] then x else -x
    if ← skipText "inf" then return ofFloat (signed (1.0 / 0.0))
    else if ← skipText "nan" then return ofFloat (signed (0.0 / 0.0))
    else decimal sign

/-! ### All values -/

/-- A value that has no others in it. -/
def simple : Scan Tree := do
  match ← next? with
  | some '"' | some '\'' => return .text (← string)
  | _ =>
    if ← skipText "true" then return .scalar (.ofBool true)
    else if ← skipText "false" then return .scalar (.ofBool false)
    else moment <|> (Tree.scalar <$> number)

mutual

/-- A value with at most `depth` lists and tables inside each other. -/
def value : (depth : Nat) → Scan Tree
  | 0 => simple
  | depth + 1 => do
    if ← skip '[' then
      skipGap
      if ← skip ']' then return .list []
      else return .list (← items depth (← get).length)
    else if ← skip '\x7b' then
      blanks
      if ← skip '\x7d' then return .table []
      else return (← pairs depth (← get).length (.new .own)).tree
    else simple
termination_by depth => (depth, 0, 0)

/-- The items of a list that is open, at most `count`, and its end. A comma may follow the last
one. -/
def items : (depth count : Nat) → Scan (List Tree)
  | _, 0 => failure
  | depth, count + 1 => do
    let v ← value depth
    skipGap
    if ← skip ',' then
      skipGap
      if ← skip ']' then return [v]
      else return v :: (← items depth count)
    else
      expect ']'
      return [v]
termination_by depth count => (depth, 1, count)

/-- The entries of a table in braces, at most `count` after those it has, and its end. -/
def pairs : (depth count : Nat) → Table → Scan Table
  | _, 0, _ => failure
  | depth, count + 1, t => do
    let path ← keys
    expect '='
    blanks
    let v ← value depth
    blanks
    let t ← StateT.lift (t.define path.dropLast (path.getLastD "") v)
    if ← skip ',' then pairs depth count t
    else
      expect '\x7d'
      return t
termination_by depth count => (depth, 1, count)

end

end Dataflow.Document.Toml
