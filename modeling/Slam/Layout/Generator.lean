import Slam.Scene.Creator
import Slam.Lib.PathTree
import Mathlib.Logic.Relation

/-!
# `v2/scene/scene_generator.lua`: `maps_generator`

A scene of version 2 is a tree of maps. The maps wait in a queue; when a map is taken out of it, its pattern
and the direction from which it is entered tell by which exits it is left, and behind each exit a map of the
next layer is made. A map gets its pattern when it is made, from a list that goes by the same direction
(`tiles_pattern_generator`), so that the two always fit (`exits_of_mem`).

A map is known by the exits that lead to it from the entry map, the last one first (`Path`). The neighbor in a
direction is the map whose path has that direction in front.

* `genTurn`: one turn of the loop, and `Built`: the trees that can come out of it;
* `Source.ofSeed`: what the maps of a scene draw from its seed; the results hold for any patterns;
* `Grown`: the invariant, and `genTurn_ne_none`: no assertion fails.
-/

namespace Slam.Layout

open Slam.Grid (Pairs numbered)
open Slam.Random (NewRandom congruence tableRandom tableSize)

/-- `Direction`, without `NONE`: `RandomDirection` picks one of the four. -/
inductive Direction where
  | left
  | right
  | up
  | down
  deriving DecidableEq, Repr

/-- The list that the loops over the neighbors go through. -/
def Direction.all : List Direction := [.left, .right, .up, .down]

/-- `ReverseDirection(direction)` -/
def Direction.reverse : Direction → Direction
  | left => right
  | right => left
  | up => down
  | down => up

/-- `MapPattern`, without `NONE`. -/
inductive MapPattern where
  | I
  | L
  | R
  | LR
  | LI
  | RI
  | LRI
  | RL
  | RR
  deriving DecidableEq, Repr

open MapPattern in
/-- The patterns that `tiles_pattern_generator` chooses from, by the direction of the entry. -/
def patterns : Direction → List MapPattern
  | .left => [L, LR, LI, RL]
  | .right => [R, LR, RI, RR]
  | .up => [I, LI, RI, LRI]
  | .down => [I, LI, RI, LRI, L, R, LR]

/-- The exits of a map, in the order in which the maps behind them are made; where there are none, the branch
of `maps_generator` is `assert(false)`. -/
def exits : MapPattern → Direction → Option (List Direction)
  | .I, .down => some [.up]
  | .I, .up => some [.down]
  | .L, .down => some [.left]
  | .L, .left => some [.down]
  | .R, .down => some [.right]
  | .R, .right => some [.down]
  | .LR, .down => some [.left, .right]
  | .LR, .left => some [.right, .down]
  | .LR, .right => some [.left, .down]
  | .LI, .down => some [.left, .up]
  | .LI, .left => some [.up, .down]
  | .LI, .up => some [.left, .down]
  | .RI, .down => some [.right, .up]
  | .RI, .right => some [.up, .down]
  | .RI, .up => some [.right, .down]
  | .LRI, .down => some [.up, .left, .right]
  | .LRI, .up => some [.down, .left, .right]
  | .LRI, .left => some [.up, .down, .right]
  | .LRI, .right => some [.up, .down, .left]
  | .RL, .left => some [.up]
  | .RL, .up => some [.left]
  | .RR, .right => some [.up]
  | .RR, .up => some [.right]
  | _, _ => none

/-- The exits that lead from the entry map to a map, the last one first. -/
abbrev Path := List Direction

/-- What the generator reads of a map's row: `base.pattern`, empty if it is nil. -/
structure MapBase where
  pattern : List MapPattern

/-- Where the maps of a scene come from: the rows by layer, as `copy.script_func` gives them, and the pattern
that each map draws, which is one of those for its entry. -/
structure Source where
  script : ℕ → Option MapBase
  pattern : Path → Direction → MapPattern
  pattern_mem : ∀ path direction, pattern path direction ∈ patterns direction

/-- A map. -/
structure Map where
  path : Path
  layer : ℕ
  entryDirection : Direction
  pattern : MapPattern
  deriving DecidableEq

/-- The maps made so far, and the local table `maps` of those that wait. -/
structure Gen where
  maps : List Map
  queue : List Map

/-- The paths of the maps. -/
def Gen.paths (g : Gen) : List Path := g.maps.map Map.path

variable (order : Pairs) (src : Source)

/-- `create_newmap`, with the assertion that the parent has no neighbor there. -/
def createNewmap (g : Gen) (path : Path) (layer : ℕ) (exitDirection : Direction) : Option Gen :=
  if path ∈ g.paths then none
  else
    let entryDirection := exitDirection.reverse
    let newmap : Map := ⟨path, layer, entryDirection, src.pattern path entryDirection⟩
    some ⟨g.maps ++ [newmap], g.queue ++ [newmap]⟩

/-- The entry map; none if the copy has no first layer. -/
def start (direction : Direction) : Option Gen := do
  let _ ← src.script 1
  createNewmap src ⟨[], []⟩ [] 1 direction

/-- One turn of the loop, none if an assertion fails. On the right the generator returns true: no map waits, or
the copy has no layer for the neighbors of the next one. -/
def genTurn (g : Gen) : Option (Gen ⊕ Gen) :=
  match order.visit g.queue with
  | [] => some (.inr g)
  | map :: _ =>
    let g := { g with queue := g.queue.filter fun m => m.path ≠ map.path }
    let layer := map.layer + 1
    match src.script layer with
    | none => some (.inr g)
    | some _ =>
      match exits map.pattern map.entryDirection with
      | none => none
      | some directions =>
        (directions.foldlM (fun g direction => createNewmap src g (direction :: map.path) layer direction) g).map .inl

/-- Some turns, from the entry map. -/
def Reached (direction : Direction) (g : Gen) : Prop :=
  ∃ g₀, start src direction = some g₀ ∧
    Relation.ReflTransGen (fun g g' => genTurn order src g = some (.inl g')) g₀ g

/-- The generator has returned with these maps. -/
def Built (direction : Direction) (g : Gen) : Prop :=
  ∃ g₁, Reached order src direction g₁ ∧ genTurn order src g₁ = some (.inr g)

/-! ### The patterns drawn from a seed -/

/-- The pattern of a map made with that seed. The constructor draws a pattern first, from the row or from the
first seven, and `tiles_pattern_generator` draws another one in its place. -/
def drawPattern (base : Option MapBase) (seed : ℤ) (entryDirection : Direction) : Option MapPattern :=
  let size : ℤ := (base.map fun base => base.pattern.length).getD 0
  let seed := if size > 0 then (NewRandom seed 0 (size - 1)).2 else (NewRandom seed 1 7).2
  let t := numbered (patterns entryDirection)
  (tableRandom (order.visit t) (tableSize t) NewRandom seed).1.map Prod.snd

variable {order src}

theorem patterns_ne_nil (direction : Direction) : patterns direction ≠ [] := by cases direction <;> decide

theorem drawPattern_mem (base : Option MapBase) (seed : ℤ) (direction : Direction) :
    (drawPattern order base seed direction).getD .I ∈ patterns direction := by
  unfold drawPattern
  simp only
  generalize (if ((base.map fun base => (base.pattern.length : ℤ)).getD 0) > 0 then _ else _ : ℤ) = seed'
  have hne : numbered (patterns direction) ≠ [] := by
    intro hnil
    have hlength := Grid.length_numbered (patterns direction)
    rw [hnil] at hlength
    exact patterns_ne_nil direction (List.length_eq_zero_iff.1 hlength.symm)
  obtain ⟨entry, hmem, seed'', hdrawn⟩ := Grid.tableRandom_visit order hne seed'
  rw [hdrawn]
  exact Grid.mem_of_numbered hmem

/-- The source that a scene is with its seed. All its maps are made with the same seed, the second number that
`reset_seed` gets from the generator. -/
def Source.ofSeed (order : Pairs) (script : ℕ → Option MapBase) (seed : ℤ) : Source where
  script := script
  pattern path direction :=
    (drawPattern order (script (path.length + 1)) (NewRandom seed 1 10000).2 direction).getD .I
  pattern_mem _ _ := drawPattern_mem _ _ _

/-! ### No assertion fails -/

/-- A pattern that was chosen for an entry has exits, each of them once. -/
theorem exits_of_mem {pattern : MapPattern} {direction : Direction} (h : pattern ∈ patterns direction) :
    ∃ directions, exits pattern direction = some directions ∧ directions.Nodup := by
  cases direction <;> cases pattern <;> first | exact ⟨_, rfl, by decide⟩ | exact absurd h (by decide)

/-- The maps that have been made are a tree, and those that wait have no neighbors but the one they are entered
from. -/
structure Grown (g : Gen) : Prop extends PathTree.IsTree g.paths where
  pattern : ∀ map ∈ g.maps, map.pattern ∈ patterns map.entryDirection
  queue_mem : ∀ map ∈ g.queue, map ∈ g.maps
  queue_leaf : ∀ map ∈ g.queue, ∀ direction, direction :: map.path ∉ g.paths

/-- The map behind an exit. -/
def child (src : Source) (map : Map) (direction : Direction) : Map :=
  ⟨direction :: map.path, map.layer + 1, direction.reverse, src.pattern (direction :: map.path) direction.reverse⟩

/-- All neighbors of a map are made, if it has none yet. -/
theorem foldlM_createNewmap (src : Source) (map : Map) {directions : List Direction} {g : Gen} (hnodup : directions.Nodup)
    (hnew : ∀ direction ∈ directions, direction :: map.path ∉ g.paths) :
    directions.foldlM (fun g direction => createNewmap src g (direction :: map.path) (map.layer + 1) direction) g =
      some ⟨g.maps ++ directions.map (child src map), g.queue ++ directions.map (child src map)⟩ := by
  induction directions generalizing g with
  | nil => simp
  | cons direction directions ih =>
    have hfirst : createNewmap src g (direction :: map.path) (map.layer + 1) direction =
        some ⟨g.maps ++ [child src map direction], g.queue ++ [child src map direction]⟩ := by
      unfold createNewmap
      rw [if_neg (hnew direction List.mem_cons_self)]
      rfl
    rw [List.foldlM_cons, hfirst]
    obtain ⟨hnot, hnodup'⟩ := List.nodup_cons.1 hnodup
    have hrest := ih (g := ⟨g.maps ++ [child src map direction], g.queue ++ [child src map direction]⟩) hnodup' (by
      intro other hother hmem
      unfold Gen.paths at hmem
      rw [List.map_append, List.mem_append] at hmem
      rcases hmem with hold | hnew'
      · exact hnew other (List.mem_cons_of_mem direction hother) hold
      · simp only [child, List.map_cons, List.map_nil, List.mem_singleton, List.cons.injEq, and_true] at hnew'
        exact hnot (hnew' ▸ hother))
    simp only [Option.bind_eq_bind, Option.bind_some]
    rw [hrest]
    simp

/-- The neighbors of a map that waited keep the tree. -/
theorem Grown.expand {g : Gen} (hg : Grown g) {map : Map} (hmap : map ∈ g.queue) {directions : List Direction}
    (hnodup : directions.Nodup) :
    Grown ⟨g.maps ++ directions.map (child src map),
      (g.queue.filter fun m => m.path ≠ map.path) ++ directions.map (child src map)⟩ := by
  have hpaths : Gen.paths ⟨g.maps ++ directions.map (child src map),
      (g.queue.filter fun m => m.path ≠ map.path) ++ directions.map (child src map)⟩ =
        g.paths ++ directions.map (· :: map.path) := by
    unfold Gen.paths
    rw [List.map_append, List.map_map]
    rfl
  have hmem : ∀ path, path ∈ g.paths ++ directions.map (· :: map.path) ↔
      path ∈ g.paths ∨ ∃ direction ∈ directions, direction :: map.path = path := by
    intro path
    rw [List.mem_append, List.mem_map]
  have hleaf := hg.queue_leaf map hmap
  have hparent : map.path ∈ g.paths := List.mem_map_of_mem (hg.queue_mem map hmap)
  refine ⟨hpaths ▸ hg.toIsTree.branch hparent hleaf hnodup, ?_, ?_, ?_⟩
  · intro m hm
    rcases List.mem_append.1 hm with hold | hnew
    · exact hg.pattern m hold
    · obtain ⟨direction, -, rfl⟩ := List.mem_map.1 hnew
      exact src.pattern_mem _ _
  · intro m hm
    rcases List.mem_append.1 hm with hold | hnew
    · exact List.mem_append_left _ (hg.queue_mem m (List.mem_filter.1 hold).1)
    · exact List.mem_append_right _ hnew
  · intro m hm direction
    rw [hpaths, hmem, not_or]
    rcases List.mem_append.1 hm with hold | hnew
    · obtain ⟨hqueue, hother⟩ := List.mem_filter.1 hold
      refine ⟨hg.queue_leaf m hqueue direction, ?_⟩
      rintro ⟨direction', -, heq⟩
      exact (by simpa using hother : m.path ≠ map.path) (List.cons.inj heq).2.symm
    · obtain ⟨direction', -, rfl⟩ := List.mem_map.1 hnew
      refine ⟨fun hold => hleaf direction' (hg.closed _ _ hold), ?_⟩
      rintro ⟨direction'', -, heq⟩
      have hlength := congrArg List.length (List.cons.inj heq).2
      simp [child] at hlength

/-- **One turn.** It does not raise, and leaves a tree. -/
theorem Grown.genTurn (order : Pairs) (src : Source) {g : Gen} (hg : Grown g) :
    ∃ r, genTurn order src g = some r ∧ (∀ g', r = .inl g' → Grown g') ∧ ∀ g', r = .inr g' → g'.maps = g.maps := by
  unfold Layout.genTurn
  cases hvisit : order.visit g.queue with
  | nil => exact ⟨_, rfl, nofun, fun g' h => by rw [← Sum.inr.inj h]⟩
  | cons map rest =>
    have hmap : map ∈ g.queue := by
      rw [← (order.visit_perm g.queue).mem_iff, hvisit]
      exact List.mem_cons_self
    dsimp only
    cases hscript : src.script (map.layer + 1) with
    | none => exact ⟨_, rfl, nofun, fun g' h => by rw [← Sum.inr.inj h]⟩
    | some base =>
      obtain ⟨directions, hexits, hnodup⟩ := exits_of_mem (hg.pattern map (hg.queue_mem map hmap))
      have hnew := foldlM_createNewmap src map
        (g := { g with queue := g.queue.filter fun m => m.path ≠ map.path }) hnodup
        fun direction _ => hg.queue_leaf map hmap direction
      dsimp only
      rw [hexits]
      dsimp only
      rw [hnew]
      exact ⟨_, rfl, fun g' h => Sum.inl.inj h ▸ hg.expand hmap hnodup, nofun⟩

/-- The entry map alone is a tree. -/
theorem grown_start {direction : Direction} {g : Gen} (hstart : start src direction = some g) : Grown g := by
  unfold start at hstart
  obtain ⟨base, -, hnew⟩ := Option.bind_eq_some_iff.1 hstart
  unfold createNewmap at hnew
  rw [if_neg (by simp [Gen.paths])] at hnew
  obtain rfl := Option.some.inj hnew
  refine ⟨⟨by simp [Gen.paths], by simp [Gen.paths], by simp [Gen.paths]⟩, ?_, by simp, by simp [Gen.paths]⟩
  intro map hmap
  obtain rfl := List.mem_singleton.1 hmap
  exact src.pattern_mem _ _

theorem Reached.grown {direction : Direction} {g : Gen} (h : Reached order src direction g) : Grown g := by
  obtain ⟨g₀, hstart, hsteps⟩ := h
  induction hsteps with
  | refl => exact grown_start hstart
  | tail _ hstep ih =>
    obtain ⟨r, hturn, hgrown, -⟩ := ih.genTurn order src
    rw [hturn, Option.some.injEq] at hstep
    exact hgrown _ hstep

/-- **No assertion of the generator fails.** -/
theorem genTurn_ne_none {direction : Direction} {g : Gen} (h : Reached order src direction g) :
    genTurn order src g ≠ none := by
  obtain ⟨r, hturn, -⟩ := h.grown.genTurn order src
  rw [hturn]
  exact Option.some_ne_none r

/-- **What comes out of the generator is a tree.** -/
theorem Built.tree {direction : Direction} {g : Gen} (h : Built order src direction g) : PathTree.IsTree g.paths := by
  obtain ⟨g₁, hreached, hturn⟩ := h
  have hg := hreached.grown
  obtain ⟨r, hturn', -, hmaps⟩ := hg.genTurn order src
  rw [hturn', Option.some.injEq] at hturn
  have hpaths : g.paths = g₁.paths := by
    unfold Gen.paths
    rw [hmaps g hturn]
  rw [hpaths]
  exact hg.toIsTree

end Slam.Layout
