import Mathlib.Data.List.Basic
import Mathlib.Data.Nat.ModEq
import Mathlib.Tactic

/-!
# Bounded first-in first-out queues

A `BoundedFifo α cap` holds at most `cap` elements, oldest first. `push` appends at the back and
refuses when the queue is full; `pop` takes the oldest element. The bound is a field, so every
queue that can be written down respects it.

The last section is the arithmetic of a ring: positions `a, a + 1, …` taken modulo the number of
slots stay distinct as long as fewer than a whole lap is in use.
-/

/-- A queue of at most `cap` elements, oldest first. -/
@[ext] structure BoundedFifo (α : Type*) (cap : ℕ) where
  items : List α
  bounded : items.length ≤ cap

namespace BoundedFifo

variable {α : Type*} {cap : ℕ}

/-- The queue that holds nothing. -/
def empty (α : Type*) (cap : ℕ) : BoundedFifo α cap := ⟨[], Nat.zero_le _⟩

/-- Append at the back; `none` when the queue is full. -/
def push (q : BoundedFifo α cap) (x : α) : Option (BoundedFifo α cap) :=
  if h : q.items.length < cap then some ⟨q.items ++ [x], by simpa using h⟩ else none

/-- Take the oldest element; `none` when the queue is empty. -/
def pop : BoundedFifo α cap → Option (α × BoundedFifo α cap)
  | ⟨[], _⟩ => none
  | ⟨x :: xs, h⟩ => some (x, ⟨xs, by simp at h; omega⟩)

/-- Overwrite the oldest element, if there is one. -/
def setFront : BoundedFifo α cap → α → BoundedFifo α cap
  | ⟨[], h⟩, _ => ⟨[], h⟩
  | ⟨_ :: xs, h⟩, y => ⟨y :: xs, by simpa using h⟩

@[simp] theorem empty_items : (empty α cap).items = [] := rfl

theorem push_eq_some_iff {q q' : BoundedFifo α cap} {x : α} :
    q.push x = some q' ↔ q.items.length < cap ∧ q'.items = q.items ++ [x] := by
  unfold push
  split_ifs with h
  · simp only [Option.some.injEq, h, true_and]
    exact ⟨fun e => by rw [← e], fun e => BoundedFifo.ext e.symm⟩
  · simp [h]

theorem push_eq_none_iff {q : BoundedFifo α cap} {x : α} :
    q.push x = none ↔ q.items.length = cap := by
  have hb := q.bounded
  unfold push
  split_ifs with h
  · simp only [false_iff]; omega
  · simp only [true_iff]; omega

theorem pop_eq_some_iff {q q' : BoundedFifo α cap} {x : α} :
    q.pop = some (x, q') ↔ q.items = x :: q'.items := by
  obtain ⟨items, hb⟩ := q
  cases items with
  | nil => simp [pop]
  | cons y ys =>
    simp only [pop, Option.some.injEq, Prod.mk.injEq, List.cons.injEq, and_congr_right_iff]
    intro _
    exact ⟨fun e => by rw [← e], fun e => BoundedFifo.ext e⟩

theorem pop_eq_none_iff {q : BoundedFifo α cap} : q.pop = none ↔ q.items = [] := by
  obtain ⟨items, hb⟩ := q
  cases items <;> simp [pop]

theorem setFront_items {q : BoundedFifo α cap} {x y : α} {xs : List α} (h : q.items = x :: xs) :
    (q.setFront y).items = y :: xs := by
  obtain ⟨items, hb⟩ := q
  cases h
  rfl

end BoundedFifo

/-! ### Positions on a ring -/

/-- Two positions less than one lap apart coincide modulo `m` only if they are the same. -/
theorem Nat.add_mod_ring_inj {m a i j : ℕ} (hi : i < m) (hj : j < m) :
    (a + i) % m = (a + j) % m ↔ i = j := by
  constructor
  · intro h
    have hmod : i ≡ j [MOD m] := Nat.ModEq.add_left_cancel' a h
    exact hmod.eq_of_lt_of_lt hi hj
  · rintro rfl; rfl
