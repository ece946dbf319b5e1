import Slam.Layout.Locate

/-!
# `v2/scene/scene_generator.lua`: when the maps of a scene lie apart

The rectangles of the maps are all of one size and their corners a multiple of it apart, so that two of them
have a coordinate in common exactly if the corners are the same, and that is if the two paths have the same
displacement. Nothing in the generator keeps two branches from coming to the same place: after a branch to the
left and down and one down and to the left two maps lie on each other (`layout_overlaps`).

* `lookup`: the map of a coordinate, and `mapsCreateIndex_spec`: it is the one whose rectangle has it;
* `layout_iff`: what the generator, `maps_locate` and `maps_create_index` guarantee, and when.
-/

namespace Slam.Layout

open Slam.Astar (Coord)
open Slam.Grid (Pairs)
open Slam.Random (NewRandom)
open PathTree

variable {order : Pairs} {src : Source} {paths : List Path}

/-- `self.maps[y][x]` -/
def lookup (maps : Index) (c : Coord) : Option Path := (maps c.y).bind fun row => row c.x

theorem mem_rectangle {locate c : Coord} :
    c ∈ rectangle locate ↔
      (locate.x ≤ c.x ∧ c.x < locate.x + flagMapWidth) ∧ locate.y ≤ c.y ∧ c.y < locate.y + flagMapHeight := by
  unfold rectangle flagMapWidth flagMapHeight
  simp only [List.mem_flatMap, List.mem_range, List.mem_map]
  constructor
  · rintro ⟨yy, hyy, xx, hxx, rfl⟩
    refine ⟨⟨?_, ?_⟩, ?_, ?_⟩ <;> dsimp only <;> omega
  · rintro ⟨⟨hleft, hright⟩, hbottom, htop⟩
    refine ⟨(c.y - locate.y).toNat, by omega, (c.x - locate.x).toNat, by omega, ?_⟩
    have hx : ((c.x - locate.x).toNat : ℤ) + locate.x = c.x := by omega
    have hy : ((c.y - locate.y).toNat : ℤ) + locate.y = c.y := by omega
    rw [hx, hy]

theorem nodup_rectangle (locate : Coord) : (rectangle locate).Nodup := by
  unfold rectangle
  refine List.nodup_flatMap.2 ⟨fun yy _ => ?_, ?_⟩
  · refine List.nodup_range.map fun a b hab => ?_
    simpa using hab
  · refine List.nodup_range.imp fun {a b} hne c ha hb => hne ?_
    obtain ⟨xx, -, rfl⟩ := List.mem_map.1 ha
    obtain ⟨xx', -, heq⟩ := List.mem_map.1 hb
    simp only [Coord.mk.injEq] at heq
    omega

/-- One coordinate. -/
theorem enterCoord_spec (path : Path) (maps : Index) (c : Coord) :
    (lookup maps c = none ∧ ∃ maps', enterCoord path maps c = some maps' ∧
        ∀ d, lookup maps' d = if d = c then some path else lookup maps d) ∨
      (lookup maps c ≠ none ∧ enterCoord path maps c = none) := by
  have hrow : (maps c.y).getD (fun _ => none) c.x = lookup maps c := by
    unfold lookup
    cases maps c.y <;> rfl
  unfold enterCoord
  simp only [hrow]
  split_ifs with hfree
  · refine .inl ⟨hfree, _, rfl, fun d => ?_⟩
    unfold lookup
    by_cases hy : d.y = c.y
    · rw [hy, Function.update_self, Option.bind_some]
      by_cases hx : d.x = c.x
      · have hsame : d = c := by
          obtain ⟨x, y⟩ := d
          dsimp only at hx hy
          rw [hx, hy]
        rw [hx, Function.update_self, if_pos hsame]
      · have hne : d ≠ c := fun h => hx (h ▸ rfl)
        rw [Function.update_of_ne hx, if_neg hne]
        cases maps c.y <;> rfl
    · have hne : d ≠ c := fun h => hy (h ▸ rfl)
      rw [Function.update_of_ne hy, if_neg hne]
  · exact .inr ⟨hfree, rfl⟩

/-- The coordinates of a rectangle: all have to be free. -/
theorem foldlM_enterCoord (path : Path) {cs : List Coord} (hnodup : cs.Nodup) (maps : Index) :
    ((∀ c ∈ cs, lookup maps c = none) ∧ ∃ maps', cs.foldlM (enterCoord path) maps = some maps' ∧
        ∀ d, lookup maps' d = if d ∈ cs then some path else lookup maps d) ∨
      ((∃ c ∈ cs, lookup maps c ≠ none) ∧ cs.foldlM (enterCoord path) maps = none) := by
  induction cs generalizing maps with
  | nil => exact .inl ⟨by simp, maps, rfl, by simp⟩
  | cons c cs ih =>
    obtain ⟨hnot, hnodup'⟩ := List.nodup_cons.1 hnodup
    rw [List.foldlM_cons]
    rcases enterCoord_spec path maps c with ⟨hfree, maps₁, henter, hmaps₁⟩ | ⟨htaken, henter⟩
    · have hsame : ∀ d ∈ cs, lookup maps₁ d = lookup maps d := by
        intro d hd
        rw [hmaps₁, if_neg]
        rintro rfl
        exact hnot hd
      rw [henter]
      rcases ih hnodup' maps₁ with ⟨hall, maps', hrest, hmaps'⟩ | ⟨⟨d, hd, htaken⟩, hrest⟩
      · refine .inl ⟨List.forall_mem_cons.2 ⟨hfree, fun d hd => (hsame d hd) ▸ hall d hd⟩, maps', hrest, fun d => ?_⟩
        rw [hmaps', hmaps₁]
        by_cases hdc : d = c <;> by_cases hd : d ∈ cs <;> simp [hdc, hd]
      · exact .inr ⟨⟨d, List.mem_cons_of_mem c hd, (hsame d hd) ▸ htaken⟩, hrest⟩
    · rw [henter]
      exact .inr ⟨⟨c, List.mem_cons_self, htaken⟩, rfl⟩

/-- What is free after a map has been entered is what was free before and is not in its rectangle. -/
theorem free_entered {path : Path} {rect : List Coord} {maps maps' : Index}
    (h : ∀ d, lookup maps' d = if d ∈ rect then some path else lookup maps d) (cs : List Coord) :
    (∀ c ∈ cs, lookup maps' c = none) ↔ (∀ c ∈ cs, lookup maps c = none) ∧ rect.Disjoint cs := by
  constructor
  · intro hfree
    refine ⟨fun c hc => ?_, fun c hrect hc => ?_⟩
    · have hnone := hfree c hc
      rw [h] at hnone
      split_ifs at hnone
      exact hnone
    · have hnone := hfree c hc
      rw [h, if_pos hrect] at hnone
      cases hnone
  · rintro ⟨hfree, hdisjoint⟩ c hc
    rw [h, if_neg fun hrect => hdisjoint hrect hc]
    exact hfree c hc

/-- The index then has the map at the coordinates of its rectangle. -/
theorem lookup_entered {path : Path} {rect : List Coord} {maps maps' : Index}
    (h : ∀ d, lookup maps' d = if d ∈ rect then some path else lookup maps d)
    (hfree : ∀ c ∈ rect, lookup maps c = none) (c : Coord) (p : Path) :
    lookup maps' c = some p ↔ p = path ∧ c ∈ rect ∨ lookup maps c = some p := by
  rw [h]
  by_cases hc : c ∈ rect
  · rw [if_pos hc, hfree c hc, Option.some.injEq]
    simp only [hc, and_true, reduceCtorEq, or_false, eq_comm]
  · rw [if_neg hc]
    simp only [hc, and_false, false_or]

/-- The maps of a list: none may have a coordinate that is taken, or one in common with another. -/
theorem foldlM_enterMap {locate : Locate} {f : Path → Coord} {l : List Path}
    (hlocate : ∀ path ∈ l, locate path = some (f path)) (maps : Index) :
    ((∃ maps', l.foldlM (fun maps path => enterMap locate path maps) maps = some maps') ↔
        (∀ path ∈ l, ∀ c ∈ rectangle (f path), lookup maps c = none) ∧
          l.Pairwise fun p q => (rectangle (f p)).Disjoint (rectangle (f q))) ∧
      ∀ maps', l.foldlM (fun maps path => enterMap locate path maps) maps = some maps' →
        ∀ c path, lookup maps' c = some path ↔ (path ∈ l ∧ c ∈ rectangle (f path)) ∨ lookup maps c = some path := by
  induction l generalizing maps with
  | nil => exact ⟨by simp, fun maps' h => by simp [Option.some.inj h]⟩
  | cons path l ih =>
    have henter : enterMap locate path maps = (rectangle (f path)).foldlM (enterCoord path) maps := by
      unfold enterMap
      simp only [hlocate path List.mem_cons_self, Option.bind_eq_bind, Option.bind_some]
    simp only [List.foldlM_cons, henter]
    rcases foldlM_enterCoord path (nodup_rectangle (f path)) maps with
      ⟨hfree, maps₁, hfirst, hmaps₁⟩ | ⟨⟨c, hc, htaken⟩, hfirst⟩
    · obtain ⟨hiff, hlookup⟩ := ih (fun p hp => hlocate p (List.mem_cons_of_mem path hp)) maps₁
      simp only [hfirst, Option.bind_eq_bind, Option.bind_some]
      refine ⟨?_, fun maps' hmaps' c p => ?_⟩
      · simp only [hiff, free_entered hmaps₁]
        rw [List.pairwise_cons, List.forall_mem_cons, ← and_assoc]
        refine and_congr_left fun _ => ?_
        constructor
        · intro hrest
          exact ⟨⟨hfree, fun p hp => (hrest p hp).1⟩, fun p hp => (hrest p hp).2⟩
        · rintro ⟨⟨-, hrest⟩, hdisjoint⟩ p hp
          exact ⟨hrest p hp, hdisjoint p hp⟩
      · rw [hlookup maps' hmaps' c p, lookup_entered hmaps₁ hfree, List.mem_cons, or_and_right, ← or_assoc]
        refine or_congr_left ((or_comm).trans (or_congr_left (and_congr_right ?_)))
        rintro rfl
        exact Iff.rfl
    · simp only [hfirst, Option.bind_eq_bind, Option.bind_none]
      refine ⟨iff_of_false (by simp) fun h => htaken (h.1 path List.mem_cons_self c hc), fun maps' h => ?_⟩
      exact absurd h (by simp)

/-- Two rectangles have a coordinate in common only if they are the same. -/
theorem disjoint_rectangle_iff (base : Coord) (p q : Path) :
    (rectangle (corner base p)).Disjoint (rectangle (corner base q)) ↔ displacement p ≠ displacement q := by
  constructor
  · intro hdisjoint hsame
    have hcorner : corner base p = corner base q := by
      unfold corner
      rw [hsame]
    have hmem : corner base p ∈ rectangle (corner base p) := by
      rw [mem_rectangle]
      unfold flagMapWidth flagMapHeight
      omega
    exact hdisjoint hmem (hcorner ▸ hmem)
  · intro hne c hp hq
    refine hne ?_
    rw [mem_rectangle] at hp hq
    unfold corner flagMapWidth flagMapHeight at hp hq
    dsimp only at hp hq
    have hx : (displacement p).x = (displacement q).x := by omega
    have hy : (displacement p).y = (displacement q).y := by omega
    rw [show displacement p = ⟨(displacement p).x, (displacement p).y⟩ from rfl, hx, hy]

/-- No two maps of a scene have the same displacement. -/
def Spread (paths : List Path) : Prop := ∀ p ∈ paths, ∀ q ∈ paths, displacement p = displacement q → p = q

/-- **The index** can be made exactly if no two displacements are equal, and then it has each map at the
coordinates of its rectangle. -/
theorem mapsCreateIndex_spec (order : Pairs) (ht : IsTree paths) {base : Coord} {locate : Locate}
    (hlocate : ∀ path ∈ paths, locate path = some (corner base path)) :
    ((∃ maps, mapsCreateIndex order paths locate = some maps) ↔ Spread paths) ∧
      ∀ maps, mapsCreateIndex order paths locate = some maps →
        ∀ c path, lookup maps c = some path ↔ path ∈ paths ∧ c ∈ rectangle (corner base path) := by
  have hcreate : mapsCreateIndex order paths locate =
      ([] :: below (order.visit Direction.all) paths (levels paths) []).foldlM
        (fun maps path => enterMap locate path maps) fun _ => none := by
    unfold mapsCreateIndex
    simp only [forNeighbors_eq ht]
    rfl
  have hmem : ∀ path, path ∈ [] :: below (order.visit Direction.all) paths (levels paths) [] ↔ path ∈ paths := by
    intro path
    rw [List.mem_cons, mem_below_root ht]
    constructor
    · rintro (rfl | h)
      · exact ht.root
      · exact h.1
    · intro h
      exact (eq_or_ne path []).imp_right fun hne => ⟨h, hne⟩
  have hnodup : ([] :: below (order.visit Direction.all) paths (levels paths) []).Nodup :=
    List.nodup_cons.2 ⟨fun h => ((mem_below_root ht).1 h).2 rfl, nodup_below nodup_visit_all _ _⟩
  rw [hcreate]
  generalize [] :: below (order.visit Direction.all) paths (levels paths) [] = l at hmem hnodup
  obtain ⟨hiff, hlookup⟩ := foldlM_enterMap (f := corner base) (l := l)
    (fun path hpath => hlocate path ((hmem path).1 hpath)) fun _ => none
  refine ⟨?_, fun maps hmaps c path => ?_⟩
  · rw [hiff]
    constructor
    · rintro ⟨-, hpairwise⟩ p hp q hq hsame
      by_contra hne
      have hsymm : Std.Symm fun p q => (rectangle (corner base p)).Disjoint (rectangle (corner base q)) :=
        ⟨fun _ _ h => h.symm⟩
      have hdisjoint := hpairwise.forall ((hmem p).2 hp) ((hmem q).2 hq) hne
      exact (disjoint_rectangle_iff base p q).1 hdisjoint hsame
    · intro hspread
      refine ⟨fun _ _ _ _ => rfl, hnodup.pairwise_of_forall_ne fun p hp q hq hne => ?_⟩
      exact (disjoint_rectangle_iff base p q).2 fun hsame => hne (hspread p ((hmem p).1 hp) q ((hmem q).1 hq) hsame)
  · rw [hlookup maps hmaps c path, hmem]
    simp [lookup]

/-- **What the layout guarantees.** No assertion of the generator fails, and every map of the tree that it makes
is located, with no negative coordinate and next to its parent in the direction of its exit. The rectangles
are disjoint and the index can be made exactly if no two maps have the same displacement. -/
theorem layout_iff {direction : Direction} {g : Gen} (hbuilt : Built order src direction g) :
    (∀ g', Reached order src direction g' → genTurn order src g' ≠ none) ∧
    ∃ locate, mapsLocate order g.paths = some locate ∧
      (∀ path ∈ g.paths, ∃ c, locate path = some c ∧ 0 ≤ c.x ∧ 0 ≤ c.y) ∧
      (∀ d path, d :: path ∈ g.paths → ∃ c, locate path = some c ∧ locate (d :: path) =
        some ⟨c.x + (offset d).x * flagMapWidth, c.y + (offset d).y * flagMapHeight⟩) ∧
      ((∀ p ∈ g.paths, ∀ q ∈ g.paths, p ≠ q → ∀ c ∈ locate p, ∀ d ∈ locate q, (rectangle c).Disjoint (rectangle d)) ∧
          (∃ maps, mapsCreateIndex order g.paths locate = some maps) ↔
        Spread g.paths) := by
  have ht := hbuilt.tree
  obtain ⟨locate, base, hsome, hlocate⟩ := mapsLocate_spec order ht
  refine ⟨fun g' => genTurn_ne_none, locate, hsome, fun path hpath => ⟨_, hlocate path hpath⟩, ?_, ?_⟩
  · intro d path hpath
    refine ⟨corner base path, (hlocate path (ht.closed d path hpath)).1, ?_⟩
    rw [(hlocate _ hpath).1, corner_cons]
  · rw [(mapsCreateIndex_spec order ht fun path hpath => (hlocate path hpath).1).1]
    refine ⟨And.right, fun hspread => ⟨fun p hp q hq hne c hc d hd => ?_, hspread⟩⟩
    rw [(hlocate p hp).1, Option.mem_some_iff] at hc
    rw [(hlocate q hq).1, Option.mem_some_iff] at hd
    subst hc hd
    exact (disjoint_rectangle_iff base p q).2 fun hsame => hne (hspread p hp q hq hsame)

/-- A copy of three layers, whose rows name no patterns. -/
def threeLayers (layer : ℕ) : Option MapBase := if layer ≤ 3 then some ⟨[]⟩ else none

/-- With seed 2 a map entered from above can be left to the left and downwards, and so can one entered from the
right. -/
theorem pattern_two (path : Path) :
    (Source.ofSeed .inOrder threeLayers 2).pattern path .up = .LI ∧
      (Source.ofSeed .inOrder threeLayers 2).pattern path .right = .LR := by
  have hnew : NewRandom = Game.newRandom := by
    funext seed low up
    exact Random.NewRandom_eq seed low up
  have hdraw : ∀ base, base = some ⟨[]⟩ ∨ base = none →
      drawPattern .inOrder base (NewRandom 2 1 10000).2 .up = some .LI ∧
        drawPattern .inOrder base (NewRandom 2 1 10000).2 .right = some .LR := by
    unfold drawPattern
    rw [hnew]
    rintro base (rfl | rfl) <;> decide
  have hbase : threeLayers (path.length + 1) = some ⟨[]⟩ ∨ threeLayers (path.length + 1) = none := by
    unfold threeLayers
    split_ifs
    · exact .inl rfl
    · exact .inr rfl
  obtain ⟨hup, hright⟩ := hdraw _ hbase
  unfold Source.ofSeed
  dsimp only
  rw [hup, hright]
  exact ⟨rfl, rfl⟩

/-- The maps of such a scene, entered from above: two of them lie to the left and below the entry map. -/
def overlapping : Gen where
  maps := [⟨[], 1, .up, .LI⟩, ⟨[.left], 2, .right, .LR⟩, ⟨[.down], 2, .up, .LI⟩,
    ⟨[.left, .left], 3, .right, .LR⟩, ⟨[.down, .left], 3, .up, .LI⟩,
    ⟨[.left, .down], 3, .right, .LR⟩, ⟨[.down, .down], 3, .up, .LI⟩]
  queue := [⟨[.down, .left], 3, .up, .LI⟩, ⟨[.left, .down], 3, .right, .LR⟩, ⟨[.down, .down], 3, .up, .LI⟩]

theorem built_overlapping : Built .inOrder (Source.ofSeed .inOrder threeLayers 2) .down overlapping := by
  have hscript : (Source.ofSeed .inOrder threeLayers 2).script = threeLayers := rfl
  have hup := fun path => (pattern_two path).1
  have hright := fun path => (pattern_two path).2
  generalize Source.ofSeed .inOrder threeLayers 2 = src at hscript hup hright
  have hstart : start src .down = some ⟨[⟨[], 1, .up, .LI⟩], [⟨[], 1, .up, .LI⟩]⟩ := by
    simp [start, createNewmap, Gen.paths, hscript, threeLayers, hup, Direction.reverse]
  refine ⟨⟨overlapping.maps, ⟨[.left, .left], 3, .right, .LR⟩ :: overlapping.queue⟩, ⟨_, hstart, ?_⟩, ?_⟩
  · refine .head (b := ⟨[⟨[], 1, .up, .LI⟩, ⟨[.left], 2, .right, .LR⟩, ⟨[.down], 2, .up, .LI⟩],
      [⟨[.left], 2, .right, .LR⟩, ⟨[.down], 2, .up, .LI⟩]⟩) ?_ ?_
    · simp [genTurn, Pairs.inOrder, exits, createNewmap, Gen.paths, hscript, threeLayers, hup, hright, Direction.reverse]
    refine .head (b := ⟨[⟨[], 1, .up, .LI⟩, ⟨[.left], 2, .right, .LR⟩, ⟨[.down], 2, .up, .LI⟩,
        ⟨[.left, .left], 3, .right, .LR⟩, ⟨[.down, .left], 3, .up, .LI⟩],
      [⟨[.down], 2, .up, .LI⟩, ⟨[.left, .left], 3, .right, .LR⟩, ⟨[.down, .left], 3, .up, .LI⟩]⟩) ?_ ?_
    · simp [genTurn, Pairs.inOrder, exits, createNewmap, Gen.paths, hscript, threeLayers, hup, hright, Direction.reverse]
    refine .single ?_
    simp [genTurn, Pairs.inOrder, exits, createNewmap, Gen.paths, hscript, threeLayers, hup, hright, Direction.reverse,
      overlapping]
  · simp [genTurn, Pairs.inOrder, hscript, threeLayers, overlapping]

/-- The layout of that scene: everything is located, but the index would need two maps at one place. -/
theorem layout_iff_overlapping :
    (∀ g', Reached .inOrder (Source.ofSeed .inOrder threeLayers 2) .down g' →
      genTurn .inOrder (Source.ofSeed .inOrder threeLayers 2) g' ≠ none) ∧
    ∃ locate, mapsLocate .inOrder overlapping.paths = some locate :=
  ⟨(layout_iff built_overlapping).1, (layout_iff built_overlapping).2.imp fun _ h => h.1⟩

/-- It cannot be made. -/
theorem layout_overlaps :
    ¬ ∀ (order : Pairs) (script : ℕ → Option MapBase) (seed : ℤ) (direction : Direction) (g : Gen),
      Built order (Source.ofSeed order script seed) direction g →
      ∃ locate, mapsLocate order g.paths = some locate ∧ ∃ maps, mapsCreateIndex order g.paths locate = some maps := by
  intro h
  obtain ⟨locate, hlocate, maps, hmaps⟩ := h .inOrder threeLayers 2 .down overlapping built_overlapping
  obtain ⟨locate', base, hlocate', hall⟩ := mapsLocate_spec .inOrder built_overlapping.tree
  obtain rfl : locate' = locate := Option.some.inj (hlocate'.symm.trans hlocate)
  have hspread := (mapsCreateIndex_spec .inOrder built_overlapping.tree
    fun path hpath => (hall path hpath).1).1.1 ⟨maps, hmaps⟩
  have hsame := hspread [.down, .left] (by decide) [.left, .down] (by decide) (by decide)
  exact absurd hsame (by decide)

end Slam.Layout
