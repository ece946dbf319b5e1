import Slam.Layout.Index

/-!
# `v2/scene/scene.lua`: what a scene answers about a coordinate

A scene asks the map that covers a coordinate whether it is moveable or passable. In Lua `a and nil or b` is `b`
whatever `a` is, and so is `a and false or b`: where no map is found the scene goes on with nil and raises. It
also asks with the coordinate as it came, while the tiles of a map are numbered from its own corner.

* `Scene`: a scene whose maps have been located and indexed, `Scene.ofTree`: there is one for each tree of maps
  that lie apart;
* `lookup_iff`: the map that is found is the one that covers the coordinate;
* `moveable_passable_iff`: the coordinates for which the scene answers what the tile of the map says.
-/

namespace Slam.Layout

open Slam.Astar (Coord)
open Slam.Grid (Pairs ObjectBase BlockCategory)
open Slam.Grid.Making (stands)
open PathTree

/-- `{objects = {[1]=?, ...}, block = ?}`, with the rows of the objects. -/
structure Tile where
  objects : List ObjectBase
  block : BlockCategory

/-- `FLAG_pattern_width` -/
def flagPatternWidth : ℤ := 15

/-- `FLAG_pattern_height` -/
def flagPatternHeight : ℤ := 15

/-- What a map knows of its tiles. Its row is not smaller than a pattern, as `tiles_pattern_generator` asserts. -/
structure MapTiles where
  width : ℤ
  height : ℤ
  tiles : Coord → Option Tile
  width_ge : flagPatternWidth ≤ width
  height_ge : flagPatternHeight ≤ height

namespace MapTiles

variable (map : MapTiles)

/-- `valid_coord(coord)` -/
def validCoord (coord : Coord) : Bool :=
  0 ≤ coord.x && 0 ≤ coord.y && coord.x < map.width && coord.y < map.height

/-- `moveable(coord)` -/
def moveable (coord : Coord) : Bool :=
  map.validCoord coord &&
    match map.tiles coord with
    | none => false
    | some t => t.block == .none

/-- `passable_objects(coord)` -/
def passableObjects (t : Tile) : Bool := t.block != .static && t.objects.all fun base => !stands base

/-- `passable(coord)` -/
def passable (coord : Coord) : Bool :=
  map.validCoord coord &&
    match map.tiles coord with
    | none => true
    | some t => t.block == .none || passableObjects t

/-- A tile of the map without a block. -/
def Free (coord : Coord) : Prop := map.validCoord coord ∧ ∃ t, map.tiles coord = some t ∧ t.block = .none

/-- A place of the map without a tile, or with one on which nothing stands for good. -/
def Open (coord : Coord) : Prop :=
  map.validCoord coord ∧ ∀ t, map.tiles coord = some t →
    t.block = .none ∨ t.block ≠ .static ∧ ∀ base ∈ t.objects, ¬ stands base

variable {map} {coord : Coord}

theorem moveable_iff : map.moveable coord ↔ map.Free coord := by
  unfold moveable Free
  rw [Bool.and_eq_true]
  refine and_congr_right fun _ => ?_
  cases map.tiles coord <;> simp

theorem passable_iff : map.passable coord ↔ map.Open coord := by
  unfold passable Open passableObjects
  rw [Bool.and_eq_true]
  refine and_congr_right fun _ => ?_
  cases map.tiles coord <;> simp

end MapTiles

/-- A scene of version 2 whose maps have been located and indexed. -/
structure Scene (order : Pairs) where
  paths : List Path
  map : Path → MapTiles
  locate : Locate
  maps : Index
  tree : IsTree paths
  located : mapsLocate order paths = some locate
  indexed : mapsCreateIndex order paths locate = some maps

namespace Scene

variable {order : Pairs} (s : Scene order)

/-- `locate_coord(coord)`, none if it raises: a row that is missing is indexed all the same. -/
def locateCoord (coord : Coord) : Option (Option Path) :=
  match s.maps coord.y with
  | none => none
  | some row => some (row coord.x)

/-- The body of `moveable` and of `passable`, none if it raises: a map that is missing is called all the same. -/
def askMap (method : MapTiles → Coord → Bool) (coord : Coord) : Option Bool := do
  match ← s.locateCoord coord with
  | none => none
  | some path => some (method (s.map path) coord)

/-- `moveable(coord)` -/
def moveable (coord : Coord) : Option Bool := s.askMap MapTiles.moveable coord

/-- `passable(coord)` -/
def passable (coord : Coord) : Option Bool := s.askMap MapTiles.passable coord

/-- The map is located there, and the coordinate is one of its rectangle. -/
def Covers (path : Path) (locate coord : Coord) : Prop :=
  path ∈ s.paths ∧ s.locate path = some locate ∧ coord ∈ rectangle locate

/-- A coordinate of the scene as the map counts it. -/
def within (locate coord : Coord) : Coord := ⟨coord.x - locate.x, coord.y - locate.y⟩

/-- The answer to be expected: false where there is no map, and elsewhere what the map says of its tile. -/
def Answers (method : MapTiles → Coord → Bool) (coord : Coord) (answer : Option Bool) : Prop :=
  ((¬ ∃ path locate, s.Covers path locate coord) → answer = some false) ∧
    ∀ path locate, s.Covers path locate coord → answer = some (method (s.map path) (within locate coord))

variable {s} {coord : Coord} {path : Path}

/-- **The index** finds the map that covers a coordinate. -/
theorem lookup_iff : lookup s.maps coord = some path ↔ ∃ locate, s.Covers path locate coord := by
  obtain ⟨locate, base, hsome, hlocate⟩ := mapsLocate_spec order s.tree
  obtain rfl : locate = s.locate := Option.some.inj (hsome.symm.trans s.located)
  have hindex := (mapsCreateIndex_spec order s.tree fun path hpath => (hlocate path hpath).1).2
  rw [hindex s.maps s.indexed]
  unfold Covers
  constructor
  · rintro ⟨hpath, hmem⟩
    exact ⟨corner base path, hpath, (hlocate path hpath).1, hmem⟩
  · rintro ⟨l, hpath, hl, hmem⟩
    rw [(hlocate path hpath).1, Option.some.injEq] at hl
    exact ⟨hpath, hl ▸ hmem⟩

/-- What is asked, by what the index finds. -/
theorem askMap_eq (method : MapTiles → Coord → Bool) :
    s.askMap method coord = (lookup s.maps coord).map fun path => method (s.map path) coord := by
  unfold askMap locateCoord lookup
  cases s.maps coord.y with
  | none => rfl
  | some row =>
    simp only [Option.bind_eq_bind, Option.bind_some]
    cases row coord.x <;> rfl

/-- The map that covers a coordinate and its place are determined by it. -/
theorem Covers.unique {locate locate' : Coord} {path' : Path} (h : s.Covers path locate coord)
    (h' : s.Covers path' locate' coord) : path = path' ∧ locate = locate' := by
  have hpath : path = path' := by
    have hfound := lookup_iff.2 ⟨locate, h⟩
    rw [lookup_iff.2 ⟨locate', h'⟩] at hfound
    exact (Option.some.inj hfound).symm
  subst hpath
  exact ⟨rfl, Option.some.inj (h.2.1.symm.trans h'.2.1)⟩

/-- The answers are as expected only under a map, and there if the coordinate means the same to the map
untranslated. -/
theorem answers_askMap_iff (method : MapTiles → Coord → Bool) :
    s.Answers method coord (s.askMap method coord) ↔
      ∃ path locate, s.Covers path locate coord ∧
        (method (s.map path) coord ↔ method (s.map path) (within locate coord)) := by
  unfold Answers
  rw [askMap_eq]
  cases hfound : lookup s.maps coord with
  | none =>
    have hnone : ¬ ∃ path locate, s.Covers path locate coord := by
      rintro ⟨path, hcovers⟩
      rw [lookup_iff.2 hcovers] at hfound
      exact absurd hfound (by simp)
    constructor
    · rintro ⟨hfalse, -⟩
      exact absurd (hfalse hnone) (by simp)
    · rintro ⟨path, locate, hcovers, -⟩
      exact absurd ⟨path, locate, hcovers⟩ hnone
  | some path =>
    obtain ⟨locate, hcovers⟩ := lookup_iff.1 hfound
    rw [Option.map_some]
    constructor
    · rintro ⟨-, hsame⟩
      exact ⟨path, locate, hcovers, Bool.eq_iff_iff.1 (Option.some.inj (hsame path locate hcovers))⟩
    · rintro ⟨path', locate', hcovers', hsame⟩
      obtain ⟨rfl, rfl⟩ := hcovers.unique hcovers'
      refine ⟨fun hnone => absurd ⟨path, locate, hcovers⟩ hnone, fun path' locate' hcovers' => ?_⟩
      obtain ⟨rfl, rfl⟩ := hcovers.unique hcovers'
      rw [Bool.eq_iff_iff.2 hsame]

/-- **The answers of a scene** are those of the tile exactly if a map covers the coordinate and has, at that
coordinate counted from its own corner, the same kind of tile as at the one meant. -/
theorem moveable_passable_iff (s : Scene order) (coord : Coord) :
    (s.Answers MapTiles.moveable coord (s.moveable coord) ↔
      ∃ path locate, s.Covers path locate coord ∧
        ((s.map path).Free coord ↔ (s.map path).Free (within locate coord))) ∧
    (s.Answers MapTiles.passable coord (s.passable coord) ↔
      ∃ path locate, s.Covers path locate coord ∧
        ((s.map path).Open coord ↔ (s.map path).Open (within locate coord))) := by
  unfold moveable passable
  constructor
  · rw [answers_askMap_iff]
    simp only [MapTiles.moveable_iff]
  · rw [answers_askMap_iff]
    simp only [MapTiles.passable_iff]

/-- No map covers a negative coordinate, so that every scene raises there. -/
theorem raises_of_neg (hneg : coord.x < 0 ∨ coord.y < 0) : s.moveable coord = none ∧ s.passable coord = none := by
  have hnone : lookup s.maps coord = none := by
    rw [Option.eq_none_iff_forall_ne_some]
    intro path hfound
    obtain ⟨l, hpath, hl, hmem⟩ := lookup_iff.1 hfound
    obtain ⟨locate, base, hsome, hlocate⟩ := mapsLocate_spec order s.tree
    obtain rfl : locate = s.locate := Option.some.inj (hsome.symm.trans s.located)
    obtain ⟨hcorner, hx, hy⟩ := hlocate path hpath
    rw [hcorner, Option.some.injEq] at hl
    rw [← hl, mem_rectangle] at hmem
    omega
  unfold moveable passable
  rw [askMap_eq, askMap_eq, hnone]
  exact ⟨rfl, rfl⟩

/-- The scene of a tree of maps that lie apart. -/
def ofTree {paths : List Path} (ht : IsTree paths) (hspread : Spread paths) (map : Path → MapTiles) : Scene order :=
  have hlocated : (mapsLocate order paths).isSome := by
    obtain ⟨locate, base, hsome, -⟩ := mapsLocate_spec order ht
    rw [hsome]
    rfl
  have hindexed : (mapsCreateIndex order paths ((mapsLocate order paths).get hlocated)).isSome := by
    obtain ⟨locate, base, hsome, hlocate⟩ := mapsLocate_spec order ht
    have hindex := (mapsCreateIndex_spec order ht fun path hpath => (hlocate path hpath).1).1.2 hspread
    simp only [hsome, Option.get_some]
    rw [Option.isSome_iff_exists]
    exact hindex
  { paths := paths
    map := map
    locate := (mapsLocate order paths).get hlocated
    maps := (mapsCreateIndex order paths ((mapsLocate order paths).get hlocated)).get hindexed
    tree := ht
    located := (Option.some_get hlocated).symm
    indexed := (Option.some_get hindexed).symm }

end Scene

/-- A map of 20 times 20 with a way straight through its pattern. -/
def wayThrough : MapTiles where
  width := 20
  height := 20
  tiles c := if 6 ≤ c.x ∧ c.x ≤ 8 ∧ 1 ≤ c.y ∧ c.y ≤ 15 then some ⟨[⟨1, 1, .none, none⟩], .none⟩ else none
  width_ge := by decide
  height_ge := by decide

/-- Two such maps, the second one to the left of the entry map. -/
def twoMaps : Scene .inOrder :=
  have ht : IsTree ([[], [.left]] : List Path) := ⟨by decide, by decide, by
    intro d path h
    simp only [List.mem_cons, List.cons.injEq, reduceCtorEq, List.not_mem_nil, or_false, false_or] at h
    simp [h.2]⟩
  .ofTree ht (by unfold Spread; decide) fun _ => wayThrough

/-- The entry map is there one width to the right. On its way the scene says that nobody can move, and beside
it the question raises. -/
theorem coordinates_differ :
    ¬ twoMaps.Answers MapTiles.moveable ⟨21, 6⟩ (twoMaps.moveable ⟨21, 6⟩) ∧
      ¬ twoMaps.Answers MapTiles.passable ⟨30, 6⟩ (twoMaps.passable ⟨30, 6⟩) := by
  have hlocate : twoMaps.locate [] = some ⟨15, 0⟩ := by decide
  have hlocate' : twoMaps.locate [.left] = some ⟨0, 0⟩ := by decide
  unfold Scene.moveable Scene.passable
  rw [Scene.answers_askMap_iff, Scene.answers_askMap_iff]
  constructor
  · rintro ⟨path, l, hcovers, hsame⟩
    have hentry : twoMaps.Covers [] ⟨15, 0⟩ ⟨21, 6⟩ := ⟨List.mem_cons_self, hlocate, by rw [mem_rectangle]; decide⟩
    obtain ⟨rfl, rfl⟩ := hcovers.unique hentry
    exact absurd hsame (by decide)
  · rintro ⟨path, l, ⟨hpath, hl, hmem⟩, -⟩
    rw [mem_rectangle] at hmem
    rcases List.mem_cons.1 hpath with rfl | hleft
    · obtain rfl := Option.some.inj (hlocate.symm.trans hl)
      exact absurd hmem (by decide)
    · obtain rfl := List.mem_singleton.1 hleft
      obtain rfl := Option.some.inj (hlocate'.symm.trans hl)
      exact absurd hmem (by decide)

end Slam.Layout
