/-!
The decimal that identifies a binary floating-point number with the fewest digits.

A finite double stands for the interval of reals that round to it. Among the grids of multiples
of `10 ^ e`, the coarsest one that has a point in this interval gives the decimal with the
fewest digits; of two points of that grid the nearer one is taken, and of two that are equally
near the larger. The search is in exact arithmetic on naturals.
-/

namespace Dataflow.Decimal

/-- The value `m * 2 ^ q`. Below a power of two the doubles lie twice as close as above it;
`narrow` marks the values for which this halves the gap to the next smaller double. -/
structure Binary where
  m : Nat
  q : Int
  narrow : Bool

/-- The magnitude written in the bits of a finite double. -/
def Binary.ofBits (b : UInt64) : Binary :=
  let e := ((b >>> 52) &&& 0x7ff).toNat
  let f := (b &&& 0xfffffffffffff).toNat
  if e = 0 then ⟨f, -1074, false⟩ else ⟨Nat.pow 2 52 + f, e - 1075, f = 0 && 1 < e⟩

/-- The value `digits * 10 ^ exponent`. -/
structure Scaled where
  digits : Nat
  exponent : Int

/-- The point of the grid `10 ^ e` that identifies `x`, if the grid has one. Everything is
counted in quarters of the unit of `x`, so that the ends of its interval are whole. -/
def Binary.onGrid? (x : Binary) (e : Int) : Option Nat :=
  let up := Nat.pow 2 (x.q - 2).toNat * Nat.pow 10 (-e).toNat
  let down := Nat.pow 2 (2 - x.q).toNat * Nat.pow 10 e.toNat
  let value := 4 * x.m * up
  let low := (if x.narrow then 4 * x.m - 1 else 4 * x.m - 2) * up
  let high := (4 * x.m + 2) * up
  let closed := x.m % 2 = 0
  let within (t : Nat) : Bool :=
    (low < t * down || (closed && low = t * down)) &&
      (t * down < high || (closed && t * down = high))
  let t := value / down
  if within t && within (t + 1) then
    some (if 2 * value < (2 * t + 1) * down then t else t + 1)
  else if within t then some t
  else if within (t + 1) then some (t + 1)
  else none

/-- The first grid at or below `10 ^ e` with a point for `x`, in at most `fuel` tries. -/
def Binary.search (x : Binary) : Int → Nat → Scaled
  | e, 0 =>
    ⟨x.m * Nat.pow 2 x.q.toNat * Nat.pow 10 (-e).toNat / Nat.pow 2 (-x.q).toNat, e⟩
  | e, fuel + 1 =>
    match x.onGrid? e with
    | some t => ⟨t, e⟩
    | none => x.search (e - 1) fuel

/-- The fewest digits that identify `x`. The search starts at a power of ten above `x`
(`10 ^ 3 < 2 ^ 10` bounds the decimal length by the binary one) and ends where every double is a
multiple of the grid. -/
def Binary.shortest (x : Binary) : Scaled :=
  if x.m = 0 then ⟨0, 0⟩
  else
    let bits : Int := x.m.log2 + 1 + x.q
    let top : Int := if 0 ≤ bits then bits / 3 + 1 else bits / 4 + 1
    x.search top (top + 1080).toNat

end Dataflow.Decimal
