import Mathlib.Data.List.Rotate

/-!
# Searching a list in a circle

`nextFrom p l i` is the first element after place `i` that satisfies `p`, where the first place follows
the last one. `take_rotate_succ` is the step of a loop that looks at one place after the other.
-/

namespace Rotation

variable {α : Type*}

/-- The first element with `p` after the first `i` ones, going around the list once. -/
def nextFrom (p : α → Bool) (l : List α) (i : ℕ) : Option α := (l.rotate i).find? p

theorem nextFrom_isSome {p : α → Bool} {l : List α} {i : ℕ} :
    (nextFrom p l i).isSome ↔ ∃ x ∈ l, p x := by
  simp [nextFrom, List.find?_isSome, List.mem_rotate]

/-- The next places are the next one and those that follow it. -/
theorem take_rotate_succ {l : List α} {i n : ℕ} {x : α} (hx : l[i % l.length]? = some x) (hn : n < l.length) :
    (l.rotate i).take (n + 1) = x :: (l.rotate (i + 1)).take n := by
  have hlength : (l.rotate i).length = l.length := List.length_rotate ..
  obtain ⟨y, t, ht⟩ : ∃ y t, l.rotate i = y :: t := by
    cases hl : l.rotate i with
    | nil => rw [hl] at hlength; simp only [List.length_nil] at hlength; omega
    | cons y t => exact ⟨y, t, rfl⟩
  have hy : y = x := by
    have hhead : (l.rotate i).head? = some x := by
      rw [← List.rotate_mod, List.head?_rotate (Nat.mod_lt i (by omega)), hx]
    rw [ht] at hhead
    exact Option.some.inj hhead
  have hsucc : l.rotate (i + 1) = t ++ [y] := by
    rw [← List.rotate_rotate, ht, List.rotate_cons_succ, List.rotate_zero]
  rw [ht, hsucc, List.take_succ_cons, hy, List.take_append_of_le_length]
  rw [ht] at hlength
  simp only [List.length_cons] at hlength
  omega

end Rotation
