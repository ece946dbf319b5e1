import Mathlib.Data.Nat.Bitwise
import Mathlib.Tactic.Ring

/-!
# Binary digits

A number is read from its digits, the highest one first, by doubling. The digits of a bitwise operation are those
of its Boolean function, so that reading them one place after the other gives the operation (`bitwise_eq_bit`).
-/

namespace BinaryDigits

/-- The number that a list of digits stands for, the highest digit first. -/
def value (bits : List Bool) : ℕ := bits.foldl (fun n b => Nat.bit b n) 0

theorem value_concat (bits : List Bool) (b : Bool) : value (bits ++ [b]) = Nat.bit b (value bits) := by
  unfold value
  rw [List.foldl_append, List.foldl_cons, List.foldl_nil]

/-- The lowest digit of a bitwise operation, and the others. -/
theorem bitwise_eq_bit {f : Bool → Bool → Bool} (hf : f false false = false) (a b : ℕ) :
    Nat.bitwise f a b = Nat.bit (f a.bodd b.bodd) (Nat.bitwise f (a / 2) (b / 2)) := by
  have hbit := Nat.bitwise_bit hf a.bodd a.div2 b.bodd b.div2
  rwa [Nat.bit_bodd_div2, Nat.bit_bodd_div2, Nat.div2_val, Nat.div2_val] at hbit

end BinaryDigits
