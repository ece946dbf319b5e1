import Slam.Astar.Sound
import Slam.Lib.Frontier

/-!
# What `FindPath` finds on a map

On a map, with the radius the caller takes from it, every coordinate has its own place in the costs. Then the
nodes expanded and the nodes held make an explored region (`Traced.explored`), and a walk from `src` to the
neighbourhood of `dest` passes through a node held: the heap is never empty before the search stops, and a
node that ends the search is as good as any walk unless one of the nodes still held can be led on by a
shorter one. That is where the heap matters: had `exitHeap` handed out a node of least `f`, there would be none.
-/

namespace Slam.Astar

/-- The conditions under which a scene calls: a map, its larger side for a radius, both ends inside it. -/
structure OnMap (q : Query) (width height : ℤ) : Prop where
  step : q.step = 1
  radius : q.radius = max width height
  inside : ∀ c, q.moveable c → 0 ≤ c.x ∧ c.x < width ∧ 0 ≤ c.y ∧ c.y < height
  src : 0 ≤ q.src.x ∧ q.src.x < width ∧ 0 ≤ q.src.y ∧ q.src.y < height
  dest : 0 ≤ q.dest.x ∧ q.dest.x < width ∧ 0 ≤ q.dest.y ∧ q.dest.y < height

/-- A moveable step. -/
def Query.Moves (q : Query) (u v : Coord) : Prop := Adjacent u v ∧ q.moveable v

namespace OnMap

variable {q : Query} {width height : ℤ} {u v : Coord}

/-- A moveable coordinate lies in the square around `dest`, and not on its rim. -/
theorem close (hmap : OnMap q width height) (hu : q.moveable u) :
    |u.x - q.dest.x| < q.radius ∧ |u.y - q.dest.y| < q.radius := by
  have hin := hmap.inside u hu
  have hdest := hmap.dest
  rw [hmap.radius, abs_lt, abs_lt]
  omega

theorem index_mem (hmap : OnMap q width height) (hu : q.moveable u) :
    0 ≤ q.index u ∧ q.index u < q.maxNumber := by
  obtain ⟨hx, hy⟩ := hmap.close hu
  rw [abs_lt] at hx hy
  have hnumber : ((q.maxNumber : ℕ) : ℤ) = (q.radius * 2 + 1) * (q.radius * 2 + 1) :=
    Int.toNat_of_nonneg (mul_self_nonneg _)
  rw [hnumber, Query.index, Query.maxDismeter]
  constructor <;> nlinarith

/-- Two moveable coordinates never share a place. -/
theorem index_inj (hmap : OnMap q width height) (hu : q.moveable u) (hv : q.moveable v)
    (h : q.index u = q.index v) : u = v := by
  obtain ⟨hux, huy⟩ := hmap.close hu
  obtain ⟨hvx, hvy⟩ := hmap.close hv
  rw [abs_lt] at hux huy hvx hvy
  rw [Query.index, Query.index, Query.maxDismeter] at h
  have hy : u.y = v.y := by
    by_contra hne
    rcases lt_or_gt_of_ne hne with hlt | hgt
    · nlinarith
    · nlinarith
  obtain ⟨x, y⟩ := u
  obtain ⟨x', y'⟩ := v
  simp only at hy
  subst hy
  simp only at h
  congr 1
  linarith

end OnMap

namespace Query

variable {q : Query} {width height : ℤ} {s t : Search} {expanded held : List Node}

/-! ### What a turn enters -/

/-- Costs are at most lowered, and never to nothing. -/
structure Lowered (costs costs' : ℤ → Option ℕ) : Prop where
  positive : ∀ i c, costs' i = some c → 0 < c
  le : ∀ i c, costs i = some c → ∃ c' ≤ c, costs' i = some c'

theorem Lowered.refl {costs : ℤ → Option ℕ} (hpos : ∀ i c, costs i = some c → 0 < c) : Lowered costs costs :=
  ⟨hpos, fun _ c hc => ⟨c, le_refl c, hc⟩⟩

theorem Lowered.trans {a b c : ℤ → Option ℕ} (hab : Lowered a b) (hbc : Lowered b c) : Lowered a c := by
  refine ⟨hbc.positive, fun i k hk => ?_⟩
  obtain ⟨k', hk', hb⟩ := hab.le i k hk
  obtain ⟨k'', hk'', hc⟩ := hbc.le i k' hb
  exact ⟨k'', hk''.trans hk', hc⟩

theorem lowered_entered {pos : Coord} (hpos : ∀ i c, s.costStack i = some c → 0 < c)
    (hcheap : q.cheaper s.costStack pos (s.root.g + 1)) :
    Lowered s.costStack (q.entered s pos).costStack := by
  refine ⟨fun i c hcost => ?_, fun i c hc => entered_costs_le hpos hcheap hc⟩
  by_cases hi : i = q.index pos
  · subst hi
    cases (Function.update_self ..).symm.trans hcost
    omega
  · exact hpos i c ((Function.update_of_ne hi ..).symm.trans hcost)

theorem lowered_enter {d : Coord × ℕ} (hpos : ∀ i c, s.costStack i = some c → 0 < c)
    (henter : q.enter s d = some t) : t.root = s.root ∧ Lowered s.costStack t.costStack := by
  rcases enter_cases henter with ⟨-, hcheap, rfl⟩ | ⟨-, rfl⟩
  · exact ⟨rfl, lowered_entered hpos hcheap⟩
  · exact ⟨rfl, .refl hpos⟩

/-- After a direction has been tried, what lies there has been entered, if not before. -/
theorem enter_enters (hmap : OnMap q width height) {d : Coord × ℕ}
    (henter : q.enter s d = some t) (hmove : q.moveable (q.tempPos s.root d.1)) :
    ∃ c ≤ s.root.g + 1, t.costStack (q.index (q.tempPos s.root d.1)) = some c := by
  rcases enter_cases henter with ⟨-, -, rfl⟩ | ⟨hnot, rfl⟩
  · exact ⟨_, le_refl _, Function.update_self ..⟩
  · -- it was not cheaper, so it has been entered at this cost or a lower one
    have hcheap := fun h => hnot ⟨hmove, h⟩
    obtain ⟨hlow, hhigh⟩ := hmap.index_mem hmove
    cases hcost : t.costStack (q.index (q.tempPos t.root d.1)) with
    | none => simp [cheaper, hcost, hlow, hhigh] at hcheap
    | some known =>
      simp only [cheaper, hcost, hlow, hhigh, decide_true, Bool.true_and, Bool.or_eq_true, decide_eq_true_eq,
        beq_iff_eq, imp_false, not_or, not_lt] at hcheap
      exact ⟨known, hcheap.1, rfl⟩

/-- What lies next to the root has been entered after the turn, if not before. -/
theorem expand_enters (hmap : OnMap q width height) (hpos : ∀ i c, s.costStack i = some c → 0 < c)
    (hexp : q.expand s = some t) {v : Coord} (hv : q.Moves s.root.pos v) :
    ∃ c ≤ s.root.g + 1, t.costStack (q.index v) = some c := by
  obtain ⟨a, ha, rfl⟩ := adjacent_iff.1 hv.1
  obtain ⟨i, hi⟩ := List.mem_iff_getElem?.1 ha
  have hdir : (a, i) ∈ adjust.zipIdx := List.mk_mem_zipIdx_iff_getElem?.2 hi
  have htemp : q.tempPos s.root a = ⟨s.root.pos.x + a.x, s.root.pos.y + a.y⟩ := by
    rw [tempPos, hmap.step, mul_one, mul_one]
  have hmove := hv.2
  rw [← htemp] at hmove ⊢
  rw [expand] at hexp
  generalize adjust.zipIdx = directions at hexp hdir
  -- the direction is the first one, and from then on the cost can only fall, or it is a later one
  induction directions generalizing s with
  | nil => cases hdir
  | cons d directions ih =>
    obtain ⟨s', henter, hrest⟩ := Option.bind_eq_some_iff.1 hexp
    obtain ⟨hroot, hlow⟩ := lowered_enter hpos henter
    rcases List.mem_cons.1 hdir with rfl | hlater
    · have hfall : Lowered s'.costStack t.costStack := by
        refine enter_induct (P := fun u => Lowered s'.costStack u.costStack) hrest (.refl hlow.positive) ?_
        intro u u' d' _ hu henter'
        exact hu.trans (lowered_enter hu.positive henter').2
      obtain ⟨c, hc, hcost⟩ := enter_enters hmap henter hmove
      obtain ⟨c', hc', hcost'⟩ := hfall.le _ c hcost
      exact ⟨c', hc'.trans hc, hcost'⟩
    · rw [← hroot] at hv htemp hmove ⊢
      exact ih hlow.positive hv htemp hmove hrest hlater

/-! ### Expanded and held nodes -/

/-- What the search has expanded and what it holds, and the costs it keeps of them. -/
structure Traced (q : Query) (expanded held : List Node) (costStack : ℤ → Option ℕ) : Prop where
  far : ∀ n ∈ expanded, ¬ q.near n.pos
  known : ∀ c g, q.moveable c → costStack (q.index c) = some g → ∃ n ∈ expanded ++ held, n.pos = c ∧ n.g = g
  entered : ∀ n ∈ expanded, ∀ v, q.Moves n.pos v → ∃ c ≤ n.g + 1, costStack (q.index v) = some c

/-- A position with its `g`, among some nodes. -/
def Labelled (nodes : List Node) (pos : Coord) (g : ℕ) : Prop := ∃ n ∈ nodes, n.pos = pos ∧ n.g = g

/-- The expanded and the held nodes make an explored region. -/
theorem Traced.explored {costStack : ℤ → Option ℕ} (htrace : q.Traced expanded held costStack)
    (horigin : q.origin ∈ expanded) :
    Explored q.Moves q.src (Labelled expanded) (Labelled held) where
  source := ⟨_, horigin, rfl, rfl⟩
  entered := by
    rintro _ _ v ⟨n, hn, rfl, rfl⟩ hv
    obtain ⟨c, hc, hcost⟩ := htrace.entered n hn v hv
    obtain ⟨m, hm, hpos, hg⟩ := htrace.known v c hv.2 hcost
    rcases List.mem_append.1 hm with hm | hm
    · exact ⟨c, hc, .inl ⟨m, hm, hpos, hg⟩⟩
    · exact ⟨c, hc, .inr ⟨m, hm, hpos, hg⟩⟩

/-- The inner loop expands the root. -/
theorem Traced.expand (hmap : OnMap q width height) (hs : q.Sound s)
    (htrace : q.Traced expanded (s.root :: s.heapStack) s.costStack) (hfar : ¬ q.near s.root.pos)
    (hexp : q.expand s = some t) : q.Traced (s.root :: expanded) t.heapStack t.costStack := by
  have hkept : t.root = s.root ∧ Lowered s.costStack t.costStack ∧
      ∀ c g, q.moveable c → t.costStack (q.index c) = some g →
        ∃ n ∈ s.root :: expanded ++ t.heapStack, n.pos = c ∧ n.g = g := by
    refine enter_induct (P := fun u => u.root = s.root ∧ Lowered s.costStack u.costStack ∧
      ∀ c g, q.moveable c → u.costStack (q.index c) = some g →
        ∃ n ∈ s.root :: expanded ++ u.heapStack, n.pos = c ∧ n.g = g) hexp ⟨rfl, .refl hs.positive, ?_⟩ ?_
    · intro c g hc hcost
      obtain ⟨n, hn, hlabel⟩ := htrace.known c g hc hcost
      refine ⟨n, ?_, hlabel⟩
      simp only [List.mem_append, List.mem_cons] at hn ⊢
      tauto
    · rintro u u' d hd ⟨hroot, hlow, hknown⟩ henter
      rcases enter_cases henter with ⟨hmove, hcheap, rfl⟩ | ⟨-, rfl⟩
      · refine ⟨hroot, hlow.trans (lowered_entered hlow.positive hcheap), fun c g hc hcost => ?_⟩
        generalize q.tempPos u.root d.1 = pos at hmove hcheap hcost ⊢
        have hmem : ∀ n, n ∈ (q.entered u pos).heapStack ↔
            n = .child pos (u.root.g + 1) (u.root.g + 1 + cost pos q.dest) u.root ∨ n ∈ u.heapStack := fun n =>
          ((intoHeap_perm _ _).mem_iff).trans List.mem_cons
        by_cases hi : q.index c = q.index pos
        · -- the coordinate just entered: nothing else has its place
          cases hmap.index_inj hc hmove hi
          cases (Function.update_self ..).symm.trans hcost
          exact ⟨_, List.mem_append_right _ ((hmem _).2 (.inl rfl)), rfl, rfl⟩
        · obtain ⟨n, hn, hlabel⟩ := hknown c g hc ((Function.update_of_ne hi ..).symm.trans hcost)
          refine ⟨n, ?_, hlabel⟩
          rcases List.mem_append.1 hn with hn | hn
          · exact List.mem_append_left _ hn
          · exact List.mem_append_right _ ((hmem n).2 (.inr hn))
      · exact ⟨hroot, hlow, hknown⟩
  obtain ⟨-, hlow, hknown⟩ := hkept
  refine ⟨?_, hknown, ?_⟩
  · rintro n (_ | ⟨_, hn⟩)
    · exact hfar
    · exact htrace.far n hn
  · rintro n (_ | ⟨_, hn⟩) v hv
    · exact expand_enters hmap hs.positive hexp hv
    · obtain ⟨c, hc, hcost⟩ := htrace.entered n hn v hv
      obtain ⟨c', hc', hcost'⟩ := hlow.le _ c hcost
      exact ⟨c', hc'.trans hc, hcost'⟩

/-- The nodes held, in whatever order. -/
theorem Traced.perm {held' : List Node} {costStack : ℤ → Option ℕ} (htrace : q.Traced expanded held costStack)
    (hperm : held'.Perm held) : q.Traced expanded held' costStack where
  far := htrace.far
  known c g hc hcost := by
    obtain ⟨n, hn, hlabel⟩ := htrace.known c g hc hcost
    refine ⟨n, ?_, hlabel⟩
    rw [List.mem_append] at hn ⊢
    exact hn.imp_right hperm.mem_iff.2
  entered := htrace.entered

/-! ### Where the search has stopped -/

theorem traced_start : q.Traced [] (q.start.root :: q.start.heapStack) q.start.costStack where
  far := fun n hn => absurd hn List.not_mem_nil
  known := fun c g _ hcost => by cases hcost
  entered := fun n hn => absurd hn List.not_mem_nil

/-- Whatever the search reaches has a trace, in which the origin is the root or expanded. -/
theorem Reached.traced (hmap : OnMap q width height) (hs : q.Reached s) :
    ∃ expanded, q.Traced expanded (s.root :: s.heapStack) s.costStack ∧ q.origin ∈ s.root :: expanded := by
  induction hs with
  | refl => exact ⟨[], traced_start, List.mem_cons_self⟩
  | @tail s s' hs hgoes ih =>
    obtain ⟨expanded, htrace, horigin⟩ := ih
    have hsound : q.Sound s := Reached.sound hmap.step hs
    obtain ⟨hfar, t, n, rest, hexp, hexit, rfl⟩ := turn_eq_inl hgoes
    exact ⟨s.root :: expanded, (htrace.expand hmap hsound hfar hexp).perm (exitHeap_perm hexit),
      List.mem_cons_of_mem _ horigin⟩

/-- **A walk to the neighbourhood of `dest` passes through a node held** when the search has stopped. -/
theorem Stops.frontier (hmap : OnMap q width height) (hsrc : ¬ q.near q.src) (hs : q.Stops s) {n : ℕ} {v : Coord}
    (hwalk : Walk q.Moves q.src n v) (hv : q.near v) :
    ∃ i j, i + j = n ∧ ∃ m ∈ s.root :: s.heapStack, m.g ≤ i ∧ Walk q.Moves m.pos j v := by
  obtain ⟨expanded, htrace, horigin⟩ := hs.1.traced hmap
  have hexpanded : q.origin ∈ expanded := by
    rcases List.mem_cons.1 horigin with hroot | hexp
    · have hpos : q.src = s.root.pos := congrArg Node.pos hroot
      exact absurd (hpos ▸ hs.2) hsrc
    · exact hexp
  have hnot : ∀ g, ¬ Labelled expanded v g := by
    rintro g ⟨m, hm, rfl, -⟩
    exact htrace.far m hm hv
  obtain ⟨i, j, u, g, hij, ⟨m, hm, rfl, rfl⟩, hi, hrest⟩ := (htrace.explored hexpanded).frontier hwalk hnot
  exact ⟨i, j, hij, m, hm, hi, hrest⟩

/-- The trail of a node is a walk to it. -/
theorem Proper.walk {n : Node} (hn : q.Proper n) : Walk q.Moves q.src n.g n.pos := by
  induction n with
  | root pos f =>
    obtain ⟨rfl, -⟩ := hn
    exact .nil
  | child pos g f father ih =>
    obtain ⟨hfather, -, hmove, hadj, hg, -⟩ := hn
    subst hg
    exact (ih hfather).snoc ⟨hadj, hmove⟩

theorem Proper.f_eq {n : Node} (hn : q.Proper n) : n.f = n.g + cost n.pos q.dest := by
  cases n with
  | root pos f => exact hn.2.trans (Nat.zero_add _).symm
  | child pos g f father => exact hn.2.2.2.2.2.1

/-- Where a walk may end: at `dest`, or next to it if it is not moveable. -/
def Goal (q : Query) (c : Coord) : Prop := if q.moveable q.dest then c = q.dest else Adjacent c q.dest

/-- No walk of one or more moveable steps that ends where the list does is shorter than the list. -/
def Shortest (q : Query) (coords : List Coord) : Prop :=
  ∀ n c, 0 < n → Walk q.Moves q.src n c → q.Goal c → coords.length ≤ n

/-- No node still held can be led on to the neighbourhood of `dest` by a shorter way than the root took. -/
def Unsurpassed (q : Query) (s : Search) : Prop :=
  ∀ m ∈ s.heapStack, ∀ k c, Walk q.Moves m.pos k c → q.near c → s.root.g ≤ m.g + k

theorem near_adjacent (hmap : OnMap q width height) {c : Coord} (hc : q.near c) (hne : c ≠ q.dest) :
    Adjacent c q.dest := by
  have hclose : cost c q.dest ≤ 1 := (near_iff hmap.step).1 hc
  have hpos : cost c q.dest ≠ 0 := fun h => hne (cost_eq_zero.1 h)
  exact le_antisymm hclose (Nat.one_le_iff_ne_zero.2 hpos)

/-- The node at which the search stops is a child, and the list is as long as its `g` says. -/
theorem Stops.length (hmap : OnMap q width height) (hs : q.Stops s) {coords : List Coord}
    (hres : q.result s.root = .roads coords) :
    coords.length = s.root.g + if q.moveable q.dest then 1 else 0 := by
  have hproper : q.Proper s.root := (hs.1.sound hmap.step).proper _ List.mem_cons_self
  have hlength := hproper.length_trail
  cases hroot : s.root with
  | root => rw [hroot] at hres; cases hres
  | child pos g f father =>
    rw [hroot] at hres hlength
    rw [result, Node.fullPath_child] at hres
    cases hres
    split_ifs
    · rw [List.length_cons]
      exact congrArg (· + 1) hlength
    · exact hlength

/-- The list is shortest if no walk reaches the neighbourhood of `dest` earlier than the search did. -/
theorem shortest_iff (hmap : OnMap q width height) (hsrc : ¬ q.near q.src) (hs : q.Stops s)
    {coords : List Coord} (hres : q.result s.root = .roads coords) :
    q.Shortest coords ↔ ∀ n c, Walk q.Moves q.src n c → q.near c → s.root.g ≤ n := by
  have hlength := hs.length hmap hres
  constructor
  · intro hshort n c hwalk hc
    cases hwalk with
    | nil => exact absurd hc hsrc
    | @snoc n v _ hv hlast =>
      by_cases hdest : q.moveable q.dest
      · rw [if_pos hdest] at hlength
        by_cases hsame : c = q.dest
        · have hle := hshort (n + 1) c n.succ_pos (hv.snoc hlast) (by rwa [Goal, if_pos hdest])
          omega
        · -- one more step leads to `dest`
          have hmore : q.Moves c q.dest := ⟨near_adjacent hmap hc hsame, hdest⟩
          have hle := hshort (n + 2) q.dest (by omega) ((hv.snoc hlast).snoc hmore) (by rw [Goal, if_pos hdest])
          omega
      · rw [if_neg hdest] at hlength
        have hsame : c ≠ q.dest := by
          rintro rfl
          exact hdest hlast.2
        have hle := hshort (n + 1) c n.succ_pos (hv.snoc hlast)
          (by rw [Goal, if_neg hdest]; exact near_adjacent hmap hc hsame)
        omega
  · intro hall n c hn hwalk hgoal
    cases hwalk with
    | nil => omega
    | @snoc n v _ hv hlast =>
      by_cases hdest : q.moveable q.dest
      · rw [Goal, if_pos hdest] at hgoal
        subst hgoal
        rw [if_pos hdest] at hlength
        have hle := hall n v hv ((near_iff hmap.step).2 hlast.1.le)
        omega
      · rw [Goal, if_neg hdest] at hgoal
        rw [if_neg hdest] at hlength
        have hle := hall (n + 1) c (hv.snoc hlast) ((near_iff hmap.step).2 hgoal.le)
        omega

/-- **The list is shortest if and only if no node still held surpasses the one the search stopped at.** -/
theorem Stops.shortest_iff (hmap : OnMap q width height) (hsrc : ¬ q.near q.src) (hs : q.Stops s)
    {coords : List Coord} (hres : q.result s.root = .roads coords) :
    q.Shortest coords ↔ q.Unsurpassed s := by
  rw [Query.shortest_iff hmap hsrc hs hres]
  have hproper := (hs.1.sound hmap.step).proper
  constructor
  · intro hall m hm k c hwalk hc
    exact hall _ c ((hproper m (List.mem_cons_of_mem _ hm)).walk.append hwalk) hc
  · intro huns n c hwalk hc
    obtain ⟨i, j, rfl, m, hm, hi, hrest⟩ := hs.frontier hmap hsrc hwalk hc
    rcases List.mem_cons.1 hm with rfl | hm
    · omega
    · have hle := huns m hm j c hrest hc
      omega

/-- **A node of least `f` is not surpassed.** -/
theorem Stops.unsurpassed (hmap : OnMap q width height) (hsrc : ¬ q.near q.src) (hs : q.Stops s)
    (hleast : ∀ m ∈ s.heapStack, s.root.f ≤ m.f) : q.Unsurpassed s := by
  intro m hm k c hwalk hc
  have hproper := (hs.1.sound hmap.step).proper
  have hroot := hproper s.root List.mem_cons_self
  -- the root is next to `dest` and not there
  have hdest : s.root.pos ≠ q.dest := by
    intro hpos
    cases hnode : s.root with
    | root pos f =>
      rw [hnode] at hroot hpos
      have hat : q.near s.root.pos := hs.2
      rw [hnode] at hat
      exact hsrc (hroot.1 ▸ hat)
    | child pos g f father =>
      rw [hnode] at hroot hpos
      exact hroot.ne_dest hmap.step (hpos ▸ List.mem_cons_self)
  have hcost : cost s.root.pos q.dest = 1 := near_adjacent hmap hs.2 hdest
  have hf := hleast m hm
  have hest : ∀ u v, q.Moves u v → cost u q.dest ≤ cost v q.dest + 1 := fun u v huv => by
    have htri := cost_triangle u v q.dest
    have hadj : cost u v = 1 := huv.1
    omega
  have hdown := hwalk.estimate_le hest
  have hclose : cost c q.dest ≤ 1 := (near_iff hmap.step).1 hc
  rw [hroot.f_eq, (hproper m (List.mem_cons_of_mem _ hm)).f_eq] at hf
  omega

end Query

open Query

/-- Two columns and six rows, where the left column is blocked at both ends:

    #.
    .S
    ..
    ..
    ..
    D.
-/
def detour : Query where
  src := ⟨1, 1⟩
  dest := ⟨0, 5⟩
  step := 1
  radius := 6
  moveable c := 0 ≤ c.x && c.x < 2 && 0 ≤ c.y && c.y < 6 && c ≠ ⟨0, 0⟩ && c ≠ ⟨0, 5⟩

end Slam.Astar
