import Dataflow.Decimal.Shortest

/-!
How a double is written: always positionally (`plain`), or so that it can be told from an
integer, with an exponent when it is very small or very large (`marked`).
-/

namespace Dataflow.Decimal

def digitChars (n : Nat) : List Char := Nat.toDigits 10 n

/-- The digits of `s` with zeros and a point as its exponent asks. -/
def Scaled.positional (s : Scaled) : List Char :=
  let ds := digitChars s.digits
  if 0 ≤ s.exponent then ds ++ List.replicate s.exponent.toNat '0'
  else
    let places := s.exponent.natAbs
    if places < ds.length then
      ds.take (ds.length - places) ++ '.' :: ds.drop (ds.length - places)
    else '0' :: '.' :: List.replicate (places - ds.length) '0' ++ ds

/-- One digit before the point, the others after it, then the exponent. -/
def Scaled.scientific (s : Scaled) : List Char :=
  let ds := digitChars s.digits
  let power := s.exponent + ds.length - 1
  let tail := (ds.drop 1)
  ds.take 1 ++ (if tail = [] then [] else '.' :: tail) ++ 'e' :: (toString power).toList

def signOf (x : Float) : List Char := if x.toBits >>> 63 = 1 then ['-'] else []

/-- The text of a value that is not finite. -/
def unbounded? (x : Float) : Option String :=
  if x.isNaN then some "NaN"
  else if x.isInf then some (if 0 < x then "inf" else "-inf")
  else none

/-- The shortest digits, positionally: `1`, `0.5`, `-0`. -/
def plain (x : Float) : String :=
  match unbounded? x with
  | some t => t
  | none => String.ofList (signOf x ++ (Binary.ofBits x.toBits).shortest.positional)

/-- The shortest digits, with `.0` after an integer, and with an exponent if the magnitude is
at least `10 ^ 16`, or below `10 ^ -4` and not zero: `1.0`, `1e16`, `-0.0`. -/
def marked (x : Float) : String :=
  match unbounded? x with
  | some t => t
  | none =>
    let s := (Binary.ofBits x.toBits).shortest
    let body :=
      if 1e16 ≤ x.abs || (x.abs < 1e-4 && x.abs != 0) then s.scientific
      else if 0 ≤ s.exponent then s.positional ++ ['.', '0']
      else s.positional
    String.ofList (signOf x ++ body)

end Dataflow.Decimal
