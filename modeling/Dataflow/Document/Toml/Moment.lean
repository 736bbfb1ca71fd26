import Dataflow.Decimal.Nearest
import Dataflow.Document.Toml.Line

/-!
Dates and times in TOML texts. A definition has no use for them; a table with their text under a
key of its own stands for each.
-/

namespace Dataflow.Document.Toml

structure Date where
  year : Nat
  month : Nat
  day : Nat

structure Clock where
  hour : Nat
  minute : Nat
  second : Nat
  /-- Parts of a second, in nanoseconds. -/
  nanos : Nat

/-- A place on the scale of local times; `minutes` is what it is ahead. -/
inductive Zone where
  | utc
  | ahead (minutes : Int)

def daysIn (year month : Nat) : Nat :=
  if month = 2 then
    if (year % 4 = 0 ∧ year % 100 ≠ 0) ∨ year % 400 = 0 then 29 else 28
  else if month = 4 ∨ month = 6 ∨ month = 9 ∨ month = 11 then 30
  else 31

open Scan

/-- A number of exactly `width` digits, within bounds. -/
def digits (width low high : Nat) : Scan Nat := do
  let cs := (← get).take width
  if cs.length ≠ width ∨ ¬ cs.all Char.isDigit then failure
  modify (·.drop width)
  let n := Decimal.ofDigits cs
  if n < low ∨ high < n then failure else return n

def date : Scan Date := do
  let year ← digits 4 0 9999
  expect '-'
  let month ← digits 2 1 12
  expect '-'
  let day ← digits 2 1 (daysIn year month)
  return ⟨year, month, day⟩

/-- Places after the ninth are cut off. -/
def clock : Scan Clock := do
  let hour ← digits 2 0 23
  expect ':'
  let minute ← digits 2 0 59
  expect ':'
  let second ← digits 2 0 60
  let nanos ← if ← skip '.' then do
      match ← span Char.isDigit with
      | [] => failure
      | ds => pure (Decimal.ofDigits ((ds ++ List.replicate 9 '0').take 9))
    else pure 0
  return ⟨hour, minute, second, nanos⟩

def zone : Scan Zone := do
  match ← take with
  | 'Z' | 'z' => return .utc
  | '+' => return .ahead (← minutes)
  | '-' => return .ahead (-(← minutes))
  | _ => failure
where
  minutes : Scan Int := do
    let hours ← digits 2 0 23
    expect ':'
    return hours * 60 + (← digits 2 0 59)

/-! ### Texts -/

def padded (width n : Nat) : String :=
  let ds := Nat.toDigits 10 n
  String.ofList (List.replicate (width - ds.length) '0' ++ ds)

def Date.text (d : Date) : String :=
  padded 4 d.year ++ "-" ++ padded 2 d.month ++ "-" ++ padded 2 d.day

def Clock.text (c : Clock) : String :=
  let places := ((padded 9 c.nanos).toList.reverse.dropWhile (· = '0')).reverse
  padded 2 c.hour ++ ":" ++ padded 2 c.minute ++ ":" ++ padded 2 c.second ++
    (if places = [] then "" else "." ++ String.ofList places)

def Zone.text : Zone → String
  | utc => "Z"
  | ahead m =>
    (if m < 0 then "-" else "+") ++ padded 2 (m.natAbs / 60) ++ ":" ++ padded 2 (m.natAbs % 60)

/-- A time after a date, if one follows, with a zone if one follows that. -/
def timeOfDay : Scan String := do
  match ← take with
  | 'T' | 't' | ' ' =>
    let c ← clock
    let z ← (some <$> zone) <|> pure none
    return "T" ++ c.text ++ (z.map Zone.text).getD ""
  | _ => failure

/-- The text of a date, a time, or both. -/
def momentText : Scan String :=
  (do
    let d ← date
    return d.text ++ (← timeOfDay <|> pure "")) <|>
  (do return (← clock).text)

def moment : Scan Tree := do
  return .table [(.text "$__toml_private_datetime", .text (← momentText))]

end Dataflow.Document.Toml
