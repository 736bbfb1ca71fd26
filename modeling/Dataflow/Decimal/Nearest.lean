/-!
The double nearest to a decimal.

The decimal is a quotient of naturals. It is divided by the power of two that leaves 53 bits, or
by the smallest one that doubles have, and what remains decides the rounding; of two doubles that
are equally near, the even one is taken. As the bits of the positive doubles are in the order of
their values, the significand can be added to the exponent field as it is.
-/

namespace Dataflow.Decimal

/-- `n / d` to the nearest natural; halves go to the even neighbour. -/
def roundDiv (n d : Nat) : Nat :=
  let q := n / d
  let r := n % d
  if 2 * r < d then q
  else if d < 2 * r then q + 1
  else q + q % 2

/-- The power of two to divide `n / d` by. -/
def unit (n d : Nat) : Int :=
  let q : Int := (n.log2 : Int) - d.log2 - 52
  let scaled := n * Nat.pow 2 (-q).toNat
  let q := if scaled < d * Nat.pow 2 q.toNat * Nat.pow 2 52 then q - 1 else q
  max q (-1074)

/-- The bits of the double nearest to `n / d`, or of infinity if that is too large. -/
def bitsOfQuotient (n d : Nat) : Nat :=
  if n = 0 then 0
  else
    let q := unit n d
    let t := roundDiv (n * Nat.pow 2 (-q).toNat) (d * Nat.pow 2 q.toNat)
    min ((q + 1074).toNat * Nat.pow 2 52 + t) 0x7ff0000000000000

/-- The double nearest to `digits * 10 ^ exponent`. Beyond the powers of ten that doubles reach
nothing has to be computed. -/
def nearest (digits : Nat) (exponent : Int) : Float :=
  let size : Int := (Nat.toDigits 10 digits).length + exponent
  if digits = 0 ∨ size < -400 then 0
  else if 400 < size then Float.ofBits 0x7ff0000000000000
  else
    Float.ofBits
      (bitsOfQuotient (digits * Nat.pow 10 exponent.toNat) (Nat.pow 10 (-exponent).toNat)).toUInt64

/-- The number that some decimal digits stand for. -/
def ofDigits (cs : List Char) : Nat := cs.foldl (fun n c => 10 * n + (c.toNat - '0'.toNat)) 0

/-- Digits, a point and digits, and a power of ten: `1`, `1.`, `.5`, `1e5`, `1.5E-7`. There is at
least one digit before or after the point. A sign may stand in front. -/
def read? (cs : List Char) : Option Float :=
  match cs with
  | '-' :: rest => (unsigned? rest).map fun x => -x
  | '+' :: rest => unsigned? rest
  | _ => unsigned? cs
where
  unsigned? (cs : List Char) : Option Float :=
    let (whole, rest) := cs.span Char.isDigit
    let (places, rest) := match rest with
      | '.' :: rest => rest.span Char.isDigit
      | _ => ([], rest)
    if whole = [] ∧ places = [] then none
    else
      (power? rest).map fun e => nearest (ofDigits (whole ++ places)) (e - places.length)
  power? : List Char → Option Int
    | [] => some 0
    | c :: rest =>
      if c = 'e' ∨ c = 'E' then
        match rest with
        | '-' :: rest => (digits? rest).map fun n => -(n : Int)
        | '+' :: rest => (digits? rest).map fun n => (n : Int)
        | _ => (digits? rest).map fun n => (n : Int)
      else none
  digits? (cs : List Char) : Option Nat :=
    if cs ≠ [] ∧ cs.all Char.isDigit then some (ofDigits cs) else none

end Dataflow.Decimal
