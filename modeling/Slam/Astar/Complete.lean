import Slam.Astar.Optimal
import Mathlib.Algebra.Order.BigOperators.Group.Finset

/-!
# When `FindPath` finds its way

The search is bounded: the pool has nodes for `MAX_NUMBER` turns. A coordinate is entered again whenever that is
cheaper, so the bound holds only if this does not happen too often. As long as the nodes come out of the heap
by `f` it happens at most once: a coordinate that has been entered towards `dest` keeps its cost, and one that
has been entered away from it can only be entered towards `dest` after that. `rank` counts what is left for a
coordinate, and what the search has done and still holds is paid for by the ranks (`Budget`).

Before the search there is another obstacle: `passable(dest)` wants a moveable neighbour of `dest`, although an
entity next to `dest` does not need one.
-/

namespace Slam.Astar

namespace Query

variable {q : Query} {width height : ℤ} {s t : Search} {u v : Coord}

/-- Steps lead towards `dest` or away from it. -/
theorem cost_adjacent (huv : Adjacent u v) (w : Coord) :
    cost v w = cost u w + 1 ∨ cost u w = cost v w + 1 := by
  simp only [Adjacent, cost] at *
  omega

/-- How often a coordinate can still be entered while the nodes come out with `f` or more. -/
def rank (q : Query) (f : ℕ) (costStack : ℤ → Option ℕ) (c : Coord) : ℕ :=
  match costStack (q.index c) with
  | none => 2
  | some k => if k + cost c q.dest ≤ f then 0 else 1

/-- The moveable coordinates of the map. -/
noncomputable def cells (q : Query) (width height : ℤ) : Finset Coord :=
  ((Finset.Ico 0 width ×ˢ Finset.Ico 0 height).image fun p => ⟨p.1, p.2⟩).filter fun c => q.moveable c

theorem mem_cells (hmap : OnMap q width height) {c : Coord} : c ∈ q.cells width height ↔ q.moveable c := by
  rw [cells, Finset.mem_filter]
  refine and_iff_right_of_imp fun hc => ?_
  have hin := hmap.inside c hc
  refine Finset.mem_image.2 ⟨(c.x, c.y), ?_, rfl⟩
  simp only [Finset.mem_product, Finset.mem_Ico]
  omega

/-- Twice the moveable coordinates are fewer than the turns there are nodes for. -/
theorem two_mul_card_cells (hmap : OnMap q width height) :
    2 * (q.cells width height).card + 1 < q.maxNumber := by
  have hcard : (q.cells width height).card ≤ width.toNat * height.toNat := by
    refine (Finset.card_filter_le _ _).trans (Finset.card_image_le.trans ?_)
    simp
  have hdest := hmap.dest
  have hradius := hmap.radius
  have hnumber : ((q.maxNumber : ℕ) : ℤ) = (q.radius * 2 + 1) * (q.radius * 2 + 1) :=
    Int.toNat_of_nonneg (mul_self_nonneg _)
  have hwidth : width ≤ q.radius := hradius ▸ le_max_left _ _
  have hheight : height ≤ q.radius := hradius ▸ le_max_right _ _
  have harea : width * height ≤ q.radius * q.radius := by
    refine mul_le_mul hwidth hheight ?_ ?_ <;> omega
  zify at hcard ⊢
  rw [Int.toNat_of_nonneg (by omega), Int.toNat_of_nonneg (by omega)] at hcard
  rw [hnumber]
  nlinarith

/-- What bounds the search: no coordinate was entered with an `f` of more than 2 above the root's, nothing
held has an `f` below it, and the ranks pay for the nodes held and the turns taken. -/
structure Budget (q : Query) (cells : Finset Coord) (s : Search) : Prop where
  above : ∀ n ∈ s.heapStack, s.root.f ≤ n.f
  entered : ∀ c k, q.moveable c → s.costStack (q.index c) = some k → k + cost c q.dest ≤ s.root.f + 2
  spent : ∑ c ∈ cells, q.rank s.root.f s.costStack c + s.heapStack.length + s.count ≤ 2 * cells.card + 1

theorem budget_start (q : Query) (width height : ℤ) : q.Budget (q.cells width height) q.start where
  above := fun n hn => by
    have hn' : n = q.origin := by simpa using (intoHeap_perm (f := Node.f) [] q.origin).mem_iff.1 hn
    rw [hn']
    rfl
  entered := fun c k _ hcost => by cases hcost
  spent := by
    have hlength : q.start.heapStack.length = 1 := (intoHeap_perm (f := Node.f) [] q.origin).length_eq
    have hrank : ∀ c ∈ q.cells width height, q.rank q.start.root.f q.start.costStack c = 2 := fun _ _ => rfl
    rw [Finset.sum_congr rfl hrank, Finset.sum_const, hlength]
    show (q.cells width height).card * 2 + 1 + 0 ≤ _
    omega

/-- **Entering a coordinate is paid for by its rank.** -/
theorem Budget.entered_step (hmap : OnMap q width height) (hs : q.Budget (q.cells width height) s)
    (hsound : q.Sound s) (hadj : Adjacent s.root.pos v) (hmove : q.moveable v)
    (hcheap : q.cheaper s.costStack v (s.root.g + 1)) : q.Budget (q.cells width height) (q.entered s v) := by
  have hf : s.root.f = s.root.g + cost s.root.pos q.dest := (hsound.proper _ List.mem_cons_self).f_eq
  have hturn := cost_adjacent hadj q.dest
  have hperm : (q.entered s v).heapStack.Perm _ := intoHeap_perm (f := Node.f) s.heapStack _
  have hself : (q.entered s v).costStack (q.index v) = some (s.root.g + 1) := Function.update_self ..
  have hother : ∀ c, q.moveable c → c ≠ v → (q.entered s v).costStack (q.index c) = s.costStack (q.index c) :=
    fun c hc hne => Function.update_of_ne (fun h => hne (hmap.index_inj hc hmove h)) ..
  refine ⟨?_, ?_, ?_⟩
  · intro n hn
    rcases List.mem_cons.1 (hperm.mem_iff.1 hn) with rfl | hn
    · show s.root.f ≤ s.root.g + 1 + cost v q.dest
      omega
    · exact hs.above n hn
  · intro c k hc hcost
    by_cases hne : c = v
    · subst hne
      cases hself.symm.trans hcost
      show s.root.g + 1 + cost c q.dest ≤ s.root.f + 2
      omega
    · exact hs.entered c k hc ((hother c hc hne).symm.trans hcost)
  · have hless : ∑ c ∈ q.cells width height, q.rank s.root.f (q.entered s v).costStack c
        < ∑ c ∈ q.cells width height, q.rank s.root.f s.costStack c := by
      have hv : q.rank s.root.f (q.entered s v).costStack v < q.rank s.root.f s.costStack v := by
        simp only [rank, hself]
        cases hcost : s.costStack (q.index v) with
        | none => split_ifs <;> simp
        | some k =>
          -- what was entered before and is entered cheaper now was above the root's `f`, and no longer is
          have hbound := hs.entered v k hmove hcost
          have hpos := hsound.positive _ k hcost
          simp only [cheaper, hcost, Bool.and_eq_true, Bool.or_eq_true, decide_eq_true_eq, beq_iff_eq] at hcheap
          have hnew : s.root.g + 1 + cost v q.dest ≤ s.root.f := by omega
          have hold : ¬ k + cost v q.dest ≤ s.root.f := by omega
          simp only [if_pos hnew, if_neg hold, Nat.zero_lt_one]
      refine Finset.sum_lt_sum (fun c hc => ?_) ⟨v, (mem_cells hmap).2 hmove, hv⟩
      by_cases hne : c = v
      · subst hne
        exact hv.le
      · rw [rank, hother c ((mem_cells hmap).1 hc) hne]
        rfl
    have hlength : (q.entered s v).heapStack.length = s.heapStack.length + 1 := hperm.length_eq
    have hspent := hs.spent
    show ∑ c ∈ q.cells width height, q.rank s.root.f (q.entered s v).costStack c +
      (q.entered s v).heapStack.length + s.count ≤ _
    omega

/-- The inner loop keeps to the budget. -/
theorem Budget.expand (hmap : OnMap q width height) (hs : q.Budget (q.cells width height) s)
    (hsound : q.Sound s) (hfar : ¬ q.near s.root.pos) (hexp : q.expand s = some t) :
    q.Budget (q.cells width height) t ∧ t.root = s.root := by
  refine (enter_induct (P := fun u => q.Budget (q.cells width height) u ∧ q.Sound u ∧ u.root = s.root) hexp
    ⟨hs, hsound, rfl⟩ ?_).imp_right And.right
  rintro u u' d hd ⟨hu, hsu, hroot⟩ henter
  rcases enter_cases henter with ⟨hmove, hcheap, rfl⟩ | ⟨-, rfl⟩
  · have hadj := @adjacent_tempPos _ hmap.step u.root _ (mem_adjust hd)
    exact ⟨hu.entered_step hmap hsu hadj hmove hcheap, hsu.entered (hroot ▸ hfar) hmove hcheap hadj, hroot⟩
  · exact ⟨hu, hsu, hroot⟩

/-- In a higher light the ranks are lower. -/
theorem rank_anti {f f' : ℕ} (hle : f ≤ f') (costStack : ℤ → Option ℕ) (c : Coord) :
    q.rank f' costStack c ≤ q.rank f costStack c := by
  unfold rank
  cases costStack (q.index c) with
  | none => exact le_refl 2
  | some k =>
    show (if _ then 0 else 1) ≤ if _ then 0 else 1
    split_ifs <;> omega

/-- **A turn keeps to the budget**, if nothing held is below the node that comes out. -/
theorem Budget.turn (hmap : OnMap q width height) (hs : q.Budget (q.cells width height) s)
    (hsound : q.Sound s) (hturn : q.turn s = .inl t) (hleast : ∀ n ∈ t.heapStack, t.root.f ≤ n.f) :
    q.Budget (q.cells width height) t := by
  obtain ⟨hfar, u, n, rest, hexp, hexit, rfl⟩ := turn_eq_inl hturn
  obtain ⟨hu, -⟩ := hs.expand hmap hsound hfar hexp
  have hperm := exitHeap_perm hexit
  have hf : u.root.f ≤ n.f := hu.above n (hperm.mem_iff.1 List.mem_cons_self)
  refine ⟨hleast, fun c k hc hcost => (hu.entered c k hc hcost).trans (Nat.add_le_add_right hf 2), ?_⟩
  have hsum : ∑ c ∈ q.cells width height, q.rank n.f u.costStack c
      ≤ ∑ c ∈ q.cells width height, q.rank u.root.f u.costStack c :=
    Finset.sum_le_sum fun c _ => rank_anti hf u.costStack c
  have hlength : rest.length + 1 = u.heapStack.length := hperm.length_eq
  have hspent := hu.spent
  show ∑ c ∈ q.cells width height, q.rank n.f u.costStack c + rest.length + (u.count + 1) ≤ _
  omega

/-! ### The search arrives -/

/-- Before the last turn the pool has a node for every direction. -/
theorem expand_of_count_lt (hcount : s.count < q.maxNumber) : ∃ t, q.expand s = some t ∧ t.count = s.count := by
  have hpool : ∀ d ∈ adjust.zipIdx, d.2 < 8 := by decide
  rw [expand]
  generalize adjust.zipIdx = directions at hpool
  induction directions generalizing s with
  | nil => exact ⟨s, rfl, rfl⟩
  | cons d directions ih =>
    have hlt := hpool d List.mem_cons_self
    have henter : ∃ t, q.enter s d = some t ∧ t.count = s.count := by
      rw [enter]
      split_ifs with _ hfull
      · exact ⟨_, rfl, rfl⟩
      · omega
      · exact ⟨s, rfl, rfl⟩
    obtain ⟨t, ht, hsame⟩ := henter
    obtain ⟨u, hu, hlast⟩ := ih (s := t) (hsame ▸ hcount) fun d' hd' => hpool d' (List.mem_cons_of_mem _ hd')
    exact ⟨u, by rw [List.foldlM_cons, ht]; exact hu, hlast.trans hsame⟩

/-- A search that goes on has something to go on with, if there is a walk. -/
theorem Reached.goes (hmap : OnMap q width height) (hs : q.Reached s) (hfar : ¬ q.near s.root.pos)
    (hcount : s.count < q.maxNumber) {n : ℕ} {c : Coord} (hwalk : Walk q.Moves q.src n c) (hc : q.near c) :
    ∃ t, q.turn s = .inl t ∧ t.count = s.count + 1 := by
  obtain ⟨expanded, htrace, horigin⟩ := hs.traced hmap
  obtain ⟨u, hexp, hsame⟩ := expand_of_count_lt hcount
  have hnext := htrace.expand hmap (hs.sound hmap.step) hfar hexp
  have hnot : ∀ g, ¬ Labelled (s.root :: expanded) c g := by
    rintro g ⟨m, hm, rfl, -⟩
    exact hnext.far m hm hc
  obtain ⟨-, -, -, -, -, ⟨m, hm, -⟩, -⟩ := (hnext.explored horigin).frontier hwalk hnot
  cases hexit : exitHeap Node.f u.heapStack with
  | none =>
    rw [exitHeap_eq_none.1 hexit] at hm
    cases hm
  | some out =>
    refine ⟨{ u with root := out.1, heapStack := out.2, count := u.count + 1 }, ?_, congrArg (· + 1) hsame⟩
    simp only [turn, hfar, hexp, hexit, Bool.false_eq_true, if_false]

/-- **The search ends with a list** if the nodes come out by `f`. -/
theorem Reached.arrives (hmap : OnMap q width height) (hsrc : ¬ q.near q.src) {n : ℕ} {c : Coord}
    (hwalk : Walk q.Moves q.src n c) (hc : q.near c)
    (hleast : ∀ s, q.Reached s → ∀ m ∈ s.heapStack, s.root.f ≤ m.f) (turns : ℕ) (hs : q.Reached s)
    (hbudget : q.Budget (q.cells width height) s) (hturns : turns + s.count = q.maxNumber + 1) :
    ∃ coords, q.search turns s = .roads coords := by
  have hcells := two_mul_card_cells hmap
  induction turns generalizing s with
  | zero =>
    have hspent := hbudget.spent
    omega
  | succ turns ih =>
    have hspent := hbudget.spent
    have hsound := hs.sound hmap.step
    rw [search]
    by_cases hnear : q.near s.root.pos
    · rw [turn_of_near hnear]
      cases hroot : s.root with
      | root pos f =>
        have hproper := hsound.proper s.root List.mem_cons_self
        rw [hroot] at hproper hnear
        exact absurd (hproper.1 ▸ hnear) hsrc
      | child pos g f father => exact ⟨_, by simp only [result, Node.fullPath_child]; rfl⟩
    · obtain ⟨t, hturn, hcount⟩ := hs.goes hmap hnear (by omega) hwalk hc
      rw [hturn]
      have ht : q.Reached t := hs.tail hturn
      exact ih ht (hbudget.turn hmap hsound hturn (hleast t ht)) (by omega)

end Query

open Query

/-- Whether the nodes come out of the heap by `f` until the search ends, which is within so many turns. -/
def Query.leastFirst (q : Query) : ℕ → Search → Bool
  | 0, _ => false
  | turns + 1, s =>
    (s.heapStack.all fun m => s.root.f ≤ m.f) &&
      match q.turn s with
      | .inl s => q.leastFirst turns s
      | .inr _ => true

/-- A row of three coordinates, from the left end to the right one. -/
def lane : Query where
  src := ⟨0, 0⟩
  dest := ⟨2, 0⟩
  step := 1
  radius := 3
  moveable c := 0 ≤ c.x && c.x < 3 && c.y == 0

/-- Two coordinates, of which only the right one is moveable, seen from the left one. -/
def besides : Query where
  src := ⟨0, 0⟩
  dest := ⟨1, 0⟩
  step := 1
  radius := 2
  moveable c := c == ⟨1, 0⟩

end Slam.Astar
