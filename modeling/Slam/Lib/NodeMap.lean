import Mathlib.Order.Defs.Unbundled

/-!
# Trees with keyed branches

A tree is known by its nodes: the partial function from the paths of keys to the labels. Comparing two trees from
one of them only (`Within`) is transitive. It cannot be turned round exactly where the other tree has nodes of its
own (`symm_iff_not_strictlyWithin`); both comparisons together are `Same`.
-/

namespace NodeMap

variable {κ ν : Type} {r : ν → ν → Prop} {f g h : List κ → Option ν}

/-- Each node of the first tree is one of the second, with a label that agrees. -/
def Within (r : ν → ν → Prop) (f g : List κ → Option ν) : Prop := ∀ p x, f p = some x → ∃ y, g p = some y ∧ r x y

/-- The two trees have the same nodes, with labels that agree. -/
def Same (r : ν → ν → Prop) (f g : List κ → Option ν) : Prop := Within r f g ∧ Within r g f

/-- The second tree has all that the first one has, and some node that it does not have. -/
def StrictlyWithin (r : ν → ν → Prop) (f g : List κ → Option ν) : Prop :=
  Within r f g ∧ ∃ p, g p ≠ none ∧ f p = none

/-- The part of a tree behind a key. -/
def below (f : List κ → Option ν) (k : κ) : List κ → Option ν := fun p => f (k :: p)

theorem Within.trans (hr : ∀ x y z, r x y → r y z → r x z) (hfg : Within r f g) (hgh : Within r g h) :
    Within r f h := by
  intro p x hx
  obtain ⟨y, hy, hxy⟩ := hfg p x hx
  obtain ⟨z, hz, hyz⟩ := hgh p y hy
  exact ⟨z, hz, hr x y z hxy hyz⟩

/-- The comparison can be turned round exactly if there is nothing more in the second tree. -/
theorem within_symm_iff (hr : ∀ x y, r x y → r y x) (hfg : Within r f g) :
    Within r g f ↔ ∀ p, g p ≠ none → f p ≠ none := by
  constructor
  · intro hgf p hp
    obtain ⟨y, hy⟩ := Option.ne_none_iff_exists'.1 hp
    obtain ⟨x, hx, -⟩ := hgf p y hy
    rw [hx]
    exact Option.some_ne_none x
  · intro hdomain p y hy
    obtain ⟨x, hx⟩ := Option.ne_none_iff_exists'.1 (hdomain p (by rw [hy]; exact Option.some_ne_none y))
    obtain ⟨y', hy', hxy⟩ := hfg p x hx
    obtain rfl : y = y' := Option.some.inj (hy.symm.trans hy')
    exact ⟨x, hx, hr x y hxy⟩

theorem symm_iff_not_strictlyWithin (hr : ∀ x y, r x y → r y x) :
    (Within r f g → Within r g f) ↔ ¬ StrictlyWithin r f g := by
  rw [StrictlyWithin, not_and]
  refine forall_congr' fun hfg => (within_symm_iff hr hfg).trans ?_
  rw [not_exists]
  exact forall_congr' fun p => not_and.symm

/-- The comparison at the root, and behind each key. -/
theorem within_iff_below : Within r f g ↔ (∀ x, f [] = some x → ∃ y, g [] = some y ∧ r x y) ∧
    ∀ k, Within r (below f k) (below g k) := by
  constructor
  · exact fun hfg => ⟨hfg [], fun k p => hfg (k :: p)⟩
  · rintro ⟨hroot, hbelow⟩ p
    cases p with
    | nil => exact hroot
    | cons k p => exact hbelow k p

/-- Nothing is within everything. -/
theorem within_of_forall_none (hf : ∀ p, f p = none) (g : List κ → Option ν) : Within r f g := by
  intro p x hx
  rw [hf p] at hx
  cases hx

end NodeMap
