/-!
Integers as words of 64 bits.
-/

namespace Dataflow

/-- The integer `n`, if 64 bits can hold it. -/
def int64? (n : Int) : Option Int64 :=
  if Int64.minValue.toInt ≤ n ∧ n ≤ Int64.maxValue.toInt then some (Int64.ofInt n) else none

/-- The natural `n`, if 64 bits without a sign can hold it. -/
def uint64? (n : Nat) : Option UInt64 :=
  if h : n < UInt64.size then some (UInt64.ofNatLT n h) else none

end Dataflow
