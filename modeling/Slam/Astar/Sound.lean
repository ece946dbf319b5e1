import Slam.Astar.FindPath
import Mathlib.Data.List.Chain
import Mathlib.Logic.Relation

/-!
# `FindPath` returns paths

With step 1 a node stands for a path: its trail, from its position back to the child of the root. What is
true of a node when it is entered stays true (`Proper`); that its trail repeats no coordinate needs the costs
as well: along a trail the costs kept are no larger than the nodes' own (`Charged`), so a coordinate of the
trail is never cheaper for a child. Which node comes out of the heap does not matter here.
-/

namespace Slam.Astar

/-- Next to each other in a row or a column. -/
def Adjacent (u v : Coord) : Prop := cost u v = 1

instance : DecidableRel Adjacent := fun u v => inferInstanceAs (Decidable (cost u v = 1))

theorem cost_comm (u v : Coord) : cost u v = cost v u := by
  simp only [cost]
  omega

theorem cost_eq_zero {u v : Coord} : cost u v = 0 ↔ u = v := by
  obtain ⟨x, y⟩ := u
  obtain ⟨x', y'⟩ := v
  simp only [cost, Coord.mk.injEq]
  omega

theorem cost_triangle (u v w : Coord) : cost u w ≤ cost u v + cost v w := by
  simp only [cost]
  omega

/-- The four directions lead to what is adjacent. -/
theorem adjacent_iff {u v : Coord} : Adjacent u v ↔ ∃ a ∈ adjust, v = ⟨u.x + a.x, u.y + a.y⟩ := by
  obtain ⟨x, y⟩ := u
  obtain ⟨x', y'⟩ := v
  simp only [Adjacent, cost, adjust, List.mem_cons, List.not_mem_nil, or_false, exists_eq_or_imp,
    exists_eq_left, Coord.mk.injEq]
  omega

theorem passable_iff {moveable : Coord → Bool} {u : Coord} :
    passable u moveable ↔ ∃ v, Adjacent u v ∧ moveable v := by
  simp only [passable, List.any_eq_true, adjacent_iff]
  constructor
  · rintro ⟨a, ha, hmove⟩
    exact ⟨_, ⟨a, ha, rfl⟩, hmove⟩
  · rintro ⟨_, ⟨a, ha, rfl⟩, hmove⟩
    exact ⟨a, ha, hmove⟩

namespace Node

/-- The positions from a node back to the child of the root. -/
def trail : Node → List Coord
  | root _ _ => []
  | child pos _ _ father => pos :: father.trail

theorem fullPath_child (pos : Coord) (g f : ℕ) (father : Node) :
    (child pos g f father).fullPath = some (pos :: father.trail) := by
  induction father generalizing pos g f with
  | root => rfl
  | child pos' g' f' father ih =>
    rw [fullPath, ih]
    rfl

end Node

namespace Query

variable {q : Query} {s s' : Search} {n : Node}

theorem near_iff (hstep : q.step = 1) {pos : Coord} : q.near pos ↔ cost pos q.dest ≤ 1 := by
  simp only [near, cost, hstep, Bool.or_eq_true, Bool.and_eq_true, decide_eq_true_eq, beq_iff_eq, abs_le]
  omega

/-- With step 1 the search enters what is adjacent. -/
theorem adjacent_tempPos (hstep : q.step = 1) {root : Node} {a : Coord} (ha : a ∈ adjust) :
    Adjacent root.pos (q.tempPos root a) :=
  adjacent_iff.2 ⟨a, ha, by rw [tempPos, hstep, mul_one, mul_one]⟩

/-- What holds of a node for good: a root is where the search starts; any other node is a moveable
coordinate next to its father's, which is not near `dest`, and it is not on its father's trail. -/
def Proper (q : Query) : Node → Prop
  | .root pos f => pos = q.src ∧ f = cost pos q.dest
  | .child pos g f father =>
    q.Proper father ∧ ¬ q.near father.pos ∧ q.moveable pos ∧ Adjacent father.pos pos ∧
      g = father.g + 1 ∧ f = g + cost pos q.dest ∧ pos ∉ father.trail

/-- The costs kept for a node's trail are no larger than the nodes' own. -/
def Charged (q : Query) (costStack : ℤ → Option ℕ) : Node → Prop
  | .root _ _ => True
  | .child pos g _ father => q.Charged costStack father ∧ ∃ c ≤ g, costStack (q.index pos) = some c

/-- The invariant of the search. -/
structure Sound (q : Query) (s : Search) : Prop where
  positive : ∀ i c, s.costStack i = some c → 0 < c
  proper : ∀ n ∈ s.root :: s.heapStack, q.Proper n
  charged : ∀ n ∈ s.root :: s.heapStack, q.Charged s.costStack n

theorem Charged.mono {costs costs' : ℤ → Option ℕ}
    (hle : ∀ i c, costs i = some c → ∃ c' ≤ c, costs' i = some c') (hn : q.Charged costs n) :
    q.Charged costs' n := by
  induction n with
  | root => exact trivial
  | child pos g f father ih =>
    obtain ⟨hfather, c, hc, hcost⟩ := hn
    obtain ⟨c', hc', hcost'⟩ := hle _ _ hcost
    exact ⟨ih hfather, c', hc'.trans hc, hcost'⟩

/-- What is cheaper than a node with its trail charged is not on the trail. -/
theorem Charged.notMem {costs : ℤ → Option ℕ} (hpos : ∀ i c, costs i = some c → 0 < c) {pos : Coord} {g : ℕ}
    (hcheap : q.cheaper costs pos g) (hproper : q.Proper n) (hg : n.g ≤ g) (hn : q.Charged costs n) :
    pos ∉ n.trail := by
  induction n with
  | root => exact List.not_mem_nil
  | child pos' g' f father ih =>
    obtain ⟨hfather, c, hc, hcost⟩ := hn
    have hless : father.g ≤ g := by
      have hg' : g' = father.g + 1 := hproper.2.2.2.2.1
      have hle : g' ≤ g := hg
      omega
    rw [Node.trail, List.mem_cons, not_or]
    refine ⟨?_, ih hproper.1 hless hfather⟩
    rintro rfl
    have hlow := hpos _ _ hcost
    simp only [cheaper, hcost, Bool.and_eq_true, Bool.or_eq_true, decide_eq_true_eq, beq_iff_eq] at hcheap
    have hg' : g' ≤ g := hg
    omega

/-! ### What a turn preserves -/

/-- What entering a coordinate does. -/
theorem enter_cases {d : Coord × ℕ} (henter : q.enter s d = some s') :
    (q.moveable (q.tempPos s.root d.1) ∧ q.cheaper s.costStack (q.tempPos s.root d.1) (s.root.g + 1) ∧
      s' = q.entered s (q.tempPos s.root d.1)) ∨
    (¬ (q.moveable (q.tempPos s.root d.1) ∧ q.cheaper s.costStack (q.tempPos s.root d.1) (s.root.g + 1)) ∧
      s' = s) := by
  simp only [enter, Bool.and_eq_true] at henter
  split_ifs at henter with hopen hpool
  · exact .inl ⟨hopen.1, hopen.2, (Option.some.inj henter).symm⟩
  · exact .inr ⟨hopen, (Option.some.inj henter).symm⟩

/-- Induction over the directions of a turn. -/
theorem enter_induct {P : Search → Prop} {directions : List (Coord × ℕ)}
    (hexp : directions.foldlM q.enter s = some s') (hs : P s)
    (henter : ∀ t t' d, d ∈ directions → P t → q.enter t d = some t' → P t') : P s' := by
  induction directions generalizing s with
  | nil =>
    cases hexp
    exact hs
  | cons d directions ih =>
    obtain ⟨t, ht, hrest⟩ := Option.bind_eq_some_iff.1 hexp
    refine ih hrest (henter s t d List.mem_cons_self hs ht) fun t t' d' hd' => ?_
    exact henter t t' d' (List.mem_cons_of_mem _ hd')

theorem mem_adjust {d : Coord × ℕ} (hd : d ∈ adjust.zipIdx) : d.1 ∈ adjust :=
  List.fst_mem_of_mem_zipIdx hd

/-- A cost is only ever replaced by a lower one. -/
theorem entered_costs_le {pos : Coord} (hpos : ∀ i c, s.costStack i = some c → 0 < c)
    (hcheap : q.cheaper s.costStack pos (s.root.g + 1)) {i : ℤ} {c : ℕ} (hcost : s.costStack i = some c) :
    ∃ c' ≤ c, (q.entered s pos).costStack i = some c' := by
  by_cases hi : i = q.index pos
  · subst hi
    refine ⟨s.root.g + 1, ?_, Function.update_self ..⟩
    have hlow := hpos _ _ hcost
    simp only [cheaper, hcost, Bool.and_eq_true, Bool.or_eq_true, decide_eq_true_eq, beq_iff_eq] at hcheap
    omega
  · exact ⟨c, le_refl c, (Function.update_of_ne hi ..).trans hcost⟩

theorem Sound.entered {pos : Coord} (hs : q.Sound s) (hfar : ¬ q.near s.root.pos)
    (hmove : q.moveable pos) (hcheap : q.cheaper s.costStack pos (s.root.g + 1))
    (hadj : Adjacent s.root.pos pos) : q.Sound (q.entered s pos) := by
  have hroot := hs.proper s.root List.mem_cons_self
  have hle := fun i c => entered_costs_le (i := i) (c := c) hs.positive hcheap
  have hcharged := fun n hn => (hs.charged n hn).mono hle
  -- the new node is the only new one
  have hmem : ∀ n ∈ (q.entered s pos).heapStack,
      n = .child pos (s.root.g + 1) (s.root.g + 1 + cost pos q.dest) s.root ∨ n ∈ s.heapStack := fun n hn =>
    List.mem_cons.1 ((intoHeap_perm _ _).mem_iff.1 hn)
  refine ⟨?_, ?_, ?_⟩
  · intro i c hcost
    by_cases hi : i = q.index pos
    · subst hi
      cases (Function.update_self ..).symm.trans hcost
      omega
    · exact hs.positive i c ((Function.update_of_ne hi ..).symm.trans hcost)
  · intro n hn
    rcases List.mem_cons.1 hn with rfl | hn
    · exact hroot
    · rcases hmem n hn with rfl | hn
      · refine ⟨hroot, hfar, hmove, hadj, rfl, rfl, ?_⟩
        exact (hs.charged _ List.mem_cons_self).notMem hs.positive hcheap hroot (Nat.le_succ _)
      · exact hs.proper n (List.mem_cons_of_mem _ hn)
  · intro n hn
    rcases List.mem_cons.1 hn with rfl | hn
    · exact hcharged _ List.mem_cons_self
    · rcases hmem n hn with rfl | hn
      · exact ⟨hcharged _ List.mem_cons_self, _, le_refl _, Function.update_self ..⟩
      · exact hcharged n (List.mem_cons_of_mem _ hn)

/-- What a turn does after which the search goes on. -/
theorem turn_eq_inl (hturn : q.turn s = .inl s') :
    ¬ q.near s.root.pos ∧ ∃ t n rest, q.expand s = some t ∧ exitHeap Node.f t.heapStack = some (n, rest) ∧
      s' = { t with root := n, heapStack := rest, count := t.count + 1 } := by
  rw [Query.turn] at hturn
  split_ifs at hturn with hnear
  split at hturn
  · cases hturn
  · rename_i t hexp
    split at hturn
    · cases hturn
    · rename_i n rest hexit
      exact ⟨hnear, t, n, rest, hexp, hexit, (Sum.inl.inj hturn).symm⟩

/-- **A turn keeps the nodes sound.** -/
theorem Sound.turn (hstep : q.step = 1) (hs : q.Sound s) (hturn : q.turn s = .inl s') : q.Sound s' := by
  obtain ⟨hfar, t, n, rest, hexp, hexit, rfl⟩ := turn_eq_inl hturn
  have ht : q.Sound t ∧ t.root = s.root := by
    refine enter_induct (P := fun t => q.Sound t ∧ t.root = s.root) hexp ⟨hs, rfl⟩ ?_
    rintro t t' d hd ⟨ht, hroot⟩ henter
    rcases enter_cases henter with ⟨hmove, hcheap, rfl⟩ | ⟨-, rfl⟩
    · exact ⟨ht.entered (hroot ▸ hfar) hmove hcheap (adjacent_tempPos hstep (mem_adjust hd)), hroot⟩
    · exact ⟨ht, hroot⟩
  have hheld : ∀ m ∈ n :: rest, m ∈ t.root :: t.heapStack := fun m hm =>
    List.mem_cons_of_mem _ ((exitHeap_perm hexit).mem_iff.1 hm)
  exact ⟨ht.1.positive, fun m hm => ht.1.proper m (hheld m hm), fun m hm => ht.1.charged m (hheld m hm)⟩

theorem sound_start : q.Sound q.start := by
  have hmem : ∀ n ∈ q.start.root :: q.start.heapStack, n = q.origin := fun n hn => by
    rcases List.mem_cons.1 hn with rfl | hn
    · rfl
    · simpa using (intoHeap_perm (f := Node.f) [] q.origin).mem_iff.1 hn
  refine ⟨fun i c hc => (by cases hc), fun n hn => ?_, fun n hn => ?_⟩
  · rw [hmem n hn]
    exact ⟨rfl, rfl⟩
  · rw [hmem n hn]
    exact trivial

/-! ### Runs of the search -/

/-- One turn leads from a search to another. -/
def Goes (q : Query) (s s' : Search) : Prop := q.turn s = .inl s'

/-- What the search reaches from its start. -/
def Reached (q : Query) : Search → Prop := Relation.ReflTransGen q.Goes q.start

/-- The search returns what its last turn returns, unless it runs out of turns. -/
theorem search_cases (turns : ℕ) (s : Search) :
    q.search turns s = .failure "destination unreachable, overflow" ∨
      ∃ s', Relation.ReflTransGen q.Goes s s' ∧ q.turn s' = .inr (q.search turns s) := by
  induction turns generalizing s with
  | zero => exact .inl rfl
  | succ turns ih =>
    rw [search]
    split
    · rename_i t hturn
      rcases ih t with hover | ⟨s', hreach, hlast⟩
      · exact .inl hover
      · exact .inr ⟨s', .head hturn hreach, hlast⟩
    · rename_i result hturn
      exact .inr ⟨s, .refl, hturn⟩

/-- The search has stopped: the node that has come out of the heap is near `dest`. -/
def Stops (q : Query) (s : Search) : Prop := q.Reached s ∧ q.near s.root.pos

theorem turn_of_near (hnear : q.near s.root.pos) : q.turn s = .inr (q.result s.root) := if_pos hnear

/-- A list of coordinates comes from where the search has stopped. -/
theorem stops_of_search {coords : List Coord} {turns : ℕ} (hfind : q.search turns q.start = .roads coords) :
    ∃ s, q.Stops s ∧ q.result s.root = .roads coords := by
  rcases search_cases (q := q) turns q.start with hover | ⟨s, hreach, hlast⟩
  · cases hover.symm.trans hfind
  · rw [hfind, Query.turn] at hlast
    split_ifs at hlast with hstop
    · exact ⟨s, ⟨hreach, hstop⟩, Sum.inr.inj hlast⟩
    · split at hlast
      · cases hlast
      · split at hlast <;> cases hlast

/-- The search stops only once. -/
theorem Stops.unique (hs : q.Stops s) (hs' : q.Stops s') : s = s' := by
  have hdet : Relator.RightUnique q.Goes := fun a b c hb hc => Sum.inl.inj (hb.symm.trans hc)
  have hend : ∀ {a b}, q.near a.root.pos → Relation.ReflTransGen q.Goes a b → a = b := by
    intro a b hnear hab
    cases Relation.ReflTransGen.cases_head hab with
    | inl h => exact h
    | inr h =>
      obtain ⟨c, hc, -⟩ := h
      cases hc.symm.trans (turn_of_near hnear)
  rcases Relation.ReflTransGen.total_of_right_unique hdet hs.1 hs'.1 with hle | hle
  · exact hend hs.2 hle
  · exact (hend hs'.2 hle).symm

/-- **Whatever the search reaches is sound.** -/
theorem Reached.sound (hstep : q.step = 1) (hs : q.Reached s) : q.Sound s := by
  induction hs with
  | refl => exact sound_start
  | tail _ hturn ih => exact ih.turn hstep hturn

/-! ### The path of a node -/

/-- A path from `src` that arrives at `dest` or, if that is not moveable, next to it. It is given backwards. -/
structure IsPath (q : Query) (coords : List Coord) : Prop where
  nodup : coords.reverse.Nodup
  moveable : ∀ c ∈ coords, q.moveable c
  chain : (q.src :: coords.reverse).IsChain Adjacent
  arrives : ∃ c ∈ coords.head?, if q.moveable q.dest then c = q.dest else Adjacent c q.dest

theorem Adjacent.symm {u v : Coord} (h : Adjacent u v) : Adjacent v u := (cost_comm v u).trans h

theorem head?_trail (hn : q.Proper n) : (n.trail ++ [q.src]).head? = some n.pos := by
  cases n with
  | root pos f => rw [← hn.1]; rfl
  | child => rfl

theorem Proper.length_trail (hn : q.Proper n) : n.trail.length = n.g := by
  induction n with
  | root => rfl
  | child pos g f father ih =>
    have hg : g = father.g + 1 := hn.2.2.2.2.1
    rw [Node.trail, List.length_cons, ih hn.1]
    exact hg.symm

/-- The trail of a node is a path to its position. -/
theorem Proper.trail (hn : q.Proper n) :
    n.trail.Nodup ∧ (∀ c ∈ n.trail, q.moveable c) ∧ (n.trail ++ [q.src]).IsChain Adjacent := by
  induction n with
  | root => exact ⟨.nil, fun c hc => absurd hc List.not_mem_nil, .singleton _⟩
  | child pos g f father ih =>
    obtain ⟨hfather, -, hmove, hadj, -, -, hnew⟩ := hn
    obtain ⟨hnodup, hall, hchain⟩ := ih hfather
    refine ⟨hnodup.cons hnew, ?_, ?_⟩
    · rintro c (_ | ⟨_, hc⟩)
      · exact hmove
      · exact hall c hc
    · refine List.isChain_cons.2 ⟨fun v hv => ?_, hchain⟩
      cases (head?_trail hfather).symm.trans hv
      exact Adjacent.symm hadj

/-- The search does not enter `dest`: it stops before. -/
theorem Proper.ne_dest (hstep : q.step = 1) (hn : q.Proper n) : q.dest ∉ n.trail := by
  induction n with
  | root => exact List.not_mem_nil
  | child pos g f father ih =>
    obtain ⟨hfather, hfar, -, hadj, -⟩ := hn
    rw [Node.trail, List.mem_cons, not_or]
    refine ⟨?_, ih hfather⟩
    rintro rfl
    exact hfar ((near_iff hstep).2 hadj.le)

/-- **What the search returns when it stops is a path.** -/
theorem Proper.isPath (hstep : q.step = 1) (hn : q.Proper n) (hnear : q.near n.pos) {coords : List Coord}
    (hres : q.result n = .roads coords) : q.IsPath coords := by
  cases n with
  | root => cases hres
  | child pos g f father =>
    obtain ⟨hnodup, hall, hchain⟩ := hn.trail
    have hdest := hn.ne_dest hstep
    have hclose : cost pos q.dest ≤ 1 := (near_iff hstep).1 hnear
    have hpos : cost pos q.dest ≠ 0 := fun h => hdest (cost_eq_zero.1 h ▸ List.mem_cons_self)
    have hadj : Adjacent pos q.dest := le_antisymm hclose (Nat.one_le_iff_ne_zero.2 hpos)
    have hrev : ∀ l : List Coord, (l ++ [q.src]).IsChain Adjacent → (q.src :: l.reverse).IsChain Adjacent := by
      intro l hl
      have hback := List.isChain_reverse.2 (hl.imp fun _ _ => Adjacent.symm)
      rwa [List.reverse_append, List.reverse_singleton] at hback
    rw [result, Node.fullPath_child] at hres
    cases hres
    split_ifs with hmove
    · refine ⟨List.nodup_reverse.2 (hnodup.cons hdest), ?_, hrev _ ?_, q.dest, rfl, by rw [if_pos hmove]⟩
      · rintro c (_ | ⟨_, hc⟩)
        · exact hmove
        · exact hall c hc
      · refine List.isChain_cons.2 ⟨fun v hv => ?_, hchain⟩
        cases hv
        exact Adjacent.symm hadj
    · exact ⟨List.nodup_reverse.2 hnodup, hall, hrev _ hchain, pos, rfl, by rwa [if_neg hmove]⟩

end Query

open Query

/-- **`FindPath` is sound.** With step 1, what it returns is a path, unless `src` is `dest` or next to a
`dest` that is not moveable from the start. -/
theorem findPath_sound {q : Query} (hstep : q.step = 1) {coords : List Coord}
    (hfind : findPath q = .roads coords) :
    q.IsPath coords ∨ (q.src = q.dest ∧ q.moveable q.dest ∧ coords = [q.dest]) ∨
      (cost q.src q.dest ≤ 1 ∧ ¬ q.moveable q.dest ∧ coords = []) := by
  rw [findPath] at hfind
  split_ifs at hfind with _ _ _ hnear hmove
  · have hclose : cost q.src q.dest ≤ 1 := (near_iff hstep).1 hnear
    cases hfind
    by_cases hsame : q.src = q.dest
    · exact .inr (.inl ⟨hsame, hmove, rfl⟩)
    · -- the path of one step
      have hpos : cost q.src q.dest ≠ 0 := fun h => hsame (cost_eq_zero.1 h)
      have hadj : Adjacent q.src q.dest := le_antisymm hclose (Nat.one_le_iff_ne_zero.2 hpos)
      refine .inl ⟨List.nodup_singleton _, ?_, List.isChain_pair.2 hadj, q.dest, rfl, by rw [if_pos hmove]⟩
      rintro c (_ | ⟨_, hc⟩)
      · exact hmove
      · cases hc
  · cases hfind
    exact .inr (.inr ⟨(near_iff hstep).1 hnear, hmove, rfl⟩)
  · obtain ⟨s, hstop, hres⟩ := stops_of_search hfind
    exact .inl ((hstop.1.sound hstep).proper _ List.mem_cons_self |>.isPath hstep hstop.2 hres)

end Slam.Astar
