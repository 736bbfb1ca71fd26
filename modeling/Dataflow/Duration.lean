/-!
Spans of time, and their text in the largest unit that has a whole part.
-/

namespace Dataflow

structure Duration where
  nanos : Nat
deriving DecidableEq, Inhabited

namespace Duration

def ofMillis (n : Nat) : Duration := ⟨n * 1000000⟩

/-- Whole milliseconds, rounded down. -/
def millis (d : Duration) : Nat := d.nanos / 1000000

/-- The fraction `part / 10 ^ places` after a point, without zeros at its end. -/
def fraction (places part : Nat) : String :=
  if part = 0 then ""
  else
    let ds := Nat.toDigits 10 part
    let padded := List.replicate (places - ds.length) '0' ++ ds
    String.ofList ('.' :: (padded.reverse.dropWhile (· = '0')).reverse)

def inUnit (nanos places : Nat) (unit : String) : String :=
  let whole := Nat.pow 10 places
  toString (nanos / whole) ++ fraction places (nanos % whole) ++ unit

/-- The span in seconds, milliseconds, microseconds or nanoseconds. -/
def text (d : Duration) : String :=
  if 1000000000 ≤ d.nanos then inUnit d.nanos 9 "s"
  else if 1000000 ≤ d.nanos then inUnit d.nanos 6 "ms"
  else if 1000 ≤ d.nanos then inUnit d.nanos 3 "µs"
  else inUnit d.nanos 0 "ns"

end Duration

end Dataflow
