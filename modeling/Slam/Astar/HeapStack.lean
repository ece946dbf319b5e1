import Mathlib.Data.List.Perm.Basic
import Mathlib.Tactic

/-!
# `tools/astar.lua`: the heap

`intoHeap` and `exitHeap` keep the open nodes of a search in an array, ordered by `f`. The two loops do
not agree on who is whose parent: `intoHeap` compares the place `i` with `i / 2`, `exitHeap` with
`2 i + 1` and `2 i + 2`. `exitHeap` moreover prefers the left child to the right one, whichever is
smaller, and passes over a left child without a sibling. So what comes out need not be minimal; that
nothing is lost is all that holds of it in general.

The array is a list as long as the cursor: what lies above the cursor is never read again.
-/

namespace Slam.Astar

variable {α β : Type} [LinearOrder β] (f : α → β)

/-- `t[i], t[j] = t[j], t[i]`, where `a` is at `i` and `b` at `j`. -/
def swap (h : List α) (i j : ℕ) (a b : α) : List α := (h.set i b).set j a

/-- The loop of `intoHeap`. The place gets smaller with each turn. -/
def siftUp : ℕ → List α → ℕ → List α
  | 0, h, _ => h
  | turns + 1, h, endpoint =>
    if endpoint = 0 then h
    else
      match h[endpoint]?, h[endpoint / 2]? with
      | some e, some p =>
        if f e < f p then siftUp turns (swap h endpoint (endpoint / 2) e p) (endpoint / 2) else h
      | _, _ => h

/-- `intoHeap`. -/
def intoHeap (h : List α) (newPoint : α) : List α := siftUp f h.length (h ++ [newPoint]) h.length

/-- The loop of `exitHeap`. The place gets larger with each turn. -/
def siftDown : ℕ → List α → ℕ → List α
  | 0, h, _ => h
  | turns + 1, h, endpoint =>
    if endpoint * 2 + 2 < h.length then
      match h[endpoint]?, h[endpoint * 2 + 1]?, h[endpoint * 2 + 2]? with
      | some e, some pl, some pr =>
        if f pl < f e then siftDown turns (swap h endpoint (endpoint * 2 + 1) e pl) (endpoint * 2 + 1)
        else if f pr < f e then siftDown turns (swap h endpoint (endpoint * 2 + 2) e pr) (endpoint * 2 + 2)
        else h
      | _, _, _ => h
    else h

/-- `exitHeap`: the first element and what is left, nil if the heap is empty. -/
def exitHeap : List α → Option (α × List α)
  | [] => none
  | ret :: rest =>
    let h := (rest.getLastD ret :: rest).dropLast
    some (ret, siftDown f h.length h 0)

/-! ### Nothing is lost -/

variable {f}

/-- An exchange is a permutation. -/
theorem swap_perm {h : List α} {i j : ℕ} {a b : α} (hi : h[i]? = some a) (hj : h[j]? = some b) :
    (swap h i j a b).Perm h := by
  obtain ⟨hilt, rfl⟩ := List.getElem?_eq_some_iff.1 hi
  obtain ⟨hjlt, rfl⟩ := List.getElem?_eq_some_iff.1 hj
  exact List.set_set_perm hilt hjlt

theorem siftUp_perm (turns : ℕ) (h : List α) (endpoint : ℕ) : (siftUp f turns h endpoint).Perm h := by
  induction turns generalizing h endpoint with
  | zero => exact .refl h
  | succ turns ih =>
    rw [siftUp]
    split_ifs
    · exact .refl h
    · split
      · rename_i e p he hp
        split_ifs
        · exact (ih _ _).trans (swap_perm he hp)
        · exact .refl h
      · exact .refl h

theorem siftDown_perm (turns : ℕ) (h : List α) (endpoint : ℕ) : (siftDown f turns h endpoint).Perm h := by
  induction turns generalizing h endpoint with
  | zero => exact .refl h
  | succ turns ih =>
    rw [siftDown]
    split_ifs
    · split
      · rename_i e pl pr he hpl hpr
        split_ifs
        · exact (ih _ _).trans (swap_perm he hpl)
        · exact (ih _ _).trans (swap_perm he hpr)
        · exact .refl h
      · exact .refl h
    · exact .refl h

/-- `intoHeap` adds the new element. -/
theorem intoHeap_perm (h : List α) (newPoint : α) : (intoHeap f h newPoint).Perm (newPoint :: h) :=
  (siftUp_perm _ _ _).trans (List.perm_append_singleton newPoint h)

/-- `exitHeap` takes the first element out. -/
theorem exitHeap_perm {h h' : List α} {a : α} (hexit : exitHeap f h = some (a, h')) : (a :: h').Perm h := by
  cases h with
  | nil => cases hexit
  | cons ret rest =>
    cases hexit
    refine List.Perm.cons a ((siftDown_perm _ _ _).trans ?_)
    rcases List.eq_nil_or_concat rest with rfl | ⟨init, last, rfl⟩
    · exact .nil
    · rw [List.concat_eq_append, List.getLastD_concat, ← List.cons_append, List.dropLast_concat]
      exact (List.perm_append_singleton last init).symm

theorem exitHeap_eq_none {h : List α} : exitHeap f h = none ↔ h = [] := by
  cases h <;> simp [exitHeap]

end Slam.Astar
