import Slam.Layout.Generator

/-!
# `v2/scene/scene_generator.lua`: `maps_locate` and `maps_create_index`

Both go through the tree by recursion over the neighbors. `maps_locate` gives each map the coordinate of its
corner, one map width or height away from that of its parent, and moves all of them so that none is negative.
`maps_create_index` enters each map for the coordinates of its rectangle and asserts that no other one is there.
So it depends on where the paths lead to (`displacement`): each step to the left, say, may be undone by one to
the right on the way to another map.

* `mapsLocate`, `mapsCreateIndex`: the functions;
* `mapsLocate_spec`: every map is located by its displacement, with no negative coordinate;
* `corner`: where a map belongs, by the displacement of its path.
-/

namespace Slam.Layout

open Slam.Astar (Coord)
open Slam.Grid (Pairs)
open PathTree

/-- `FLAG_map_width` -/
def flagMapWidth : ℤ := 15

/-- `FLAG_map_height` -/
def flagMapHeight : ℤ := 15

/-- `FLAG_entry_locate_x` and `FLAG_entry_locate_y` -/
def flagEntryLocate : Coord := ⟨0, 0⟩

/-- The table of offsets. -/
def offset : Direction → Coord
  | .left => ⟨-1, 0⟩
  | .right => ⟨1, 0⟩
  | .up => ⟨0, 1⟩
  | .down => ⟨0, -1⟩

/-- `map.locate` of the maps. -/
abbrev Locate := Path → Option Coord

variable (order : Pairs) (paths : List Path)

/-- The recursion of the functions below: the neighbors of a map one after another, each before its own ones. -/
def forNeighbors {σ : Type} (visit : Path → σ → Option σ) : Path → σ → Option σ :=
  walk (order.visit Direction.all) paths visit (levels paths)

/-- `neighbor.locate = {x = ?, y = ?}` -/
def locateNeighbor : Path → Locate → Option Locate
  | [], _ => none
  | direction :: path, locate => do
    let c ← locate path
    return Function.update locate (direction :: path)
      (some ⟨c.x + (offset direction).x * flagMapWidth, c.y + (offset direction).y * flagMapHeight⟩)

/-- `map_locate(self.entrymap)` -/
def mapLocate (locate : Locate) : Option Locate := forNeighbors order paths locateNeighbor [] locate

/-- The body of `map_locate_min`: `min`. -/
def lowerMin (locate : Locate) (path : Path) (min : Coord) : Option Coord := do
  let c ← locate path
  return ⟨if c.x < min.x then c.x else min.x, if c.y < min.y then c.y else min.y⟩

/-- `map_locate_min(self.entrymap, min)` -/
def mapLocateMin (locate : Locate) (min : Coord) : Option Coord := forNeighbors order paths (lowerMin locate) [] min

/-- `maps_locate()` -/
def mapsLocate : Option Locate := do
  let locate ← mapLocate order paths (Function.update (fun _ => none) [] (some flagEntryLocate))
  let min ← mapLocateMin order paths locate ⟨0, 0⟩
  if min.x < 0 ∨ min.y < 0 then mapLocate order paths (Function.update locate [] (some ⟨|min.x|, |min.y|⟩))
  else some locate

/-- `self.maps`, by rows. -/
abbrev Index := ℤ → Option (ℤ → Option Path)

/-- The coordinates of a map's rectangle, in the order in which they are entered. -/
def rectangle (locate : Coord) : List Coord :=
  (List.range flagMapHeight.toNat).flatMap fun (yy : ℕ) =>
    (List.range flagMapWidth.toNat).map fun (xx : ℕ) => ⟨xx + locate.x, yy + locate.y⟩

/-- A coordinate is entered, with the assertion that it is free. -/
def enterCoord (path : Path) (maps : Index) (c : Coord) : Option Index :=
  let row := (maps c.y).getD fun _ => none
  if row c.x = none then some (Function.update maps c.y (some (Function.update row c.x (some path)))) else none

/-- A map is entered. -/
def enterMap (locate : Locate) (path : Path) (maps : Index) : Option Index := do
  let c ← locate path
  (rectangle c).foldlM (enterCoord path) maps

/-- `maps_create_index()` -/
def mapsCreateIndex (locate : Locate) : Option Index := do
  let maps ← enterMap locate [] fun _ => none
  forNeighbors order paths (enterMap locate) [] maps

/-! ### Where the paths lead to -/

/-- The steps of a path, added up. -/
def displacement : Path → Coord
  | [] => ⟨0, 0⟩
  | direction :: path =>
    ⟨(displacement path).x + (offset direction).x, (displacement path).y + (offset direction).y⟩

/-- The corner of a map, if that of the entry map is here. -/
def corner (base : Coord) (path : Path) : Coord :=
  ⟨base.x + (displacement path).x * flagMapWidth, base.y + (displacement path).y * flagMapHeight⟩

variable {order paths}

theorem corner_nil (base : Coord) : corner base [] = base := by
  unfold corner displacement
  simp

theorem corner_cons (base : Coord) (direction : Direction) (path : Path) :
    corner base (direction :: path) =
      ⟨(corner base path).x + (offset direction).x * flagMapWidth,
        (corner base path).y + (offset direction).y * flagMapHeight⟩ := by
  unfold corner
  simp only [displacement, Coord.mk.injEq]
  constructor <;> ring

theorem mem_visit_all (direction : Direction) : direction ∈ order.visit Direction.all := by
  rw [(order.visit_perm _).mem_iff]
  cases direction <;> decide

theorem nodup_visit_all : (order.visit Direction.all).Nodup := by
  rw [(order.visit_perm _).nodup_iff]
  decide

/-- The recursion from the entry map is a fold over all other maps. -/
theorem forNeighbors_eq {σ : Type} (ht : IsTree paths) (visit : Path → σ → Option σ) (s : σ) :
    forNeighbors order paths visit [] s =
      (below (order.visit Direction.all) paths (levels paths) []).foldlM (fun s path => visit path s) s :=
  walk_eq_foldlM ht.root (deep_levels paths []) s

theorem mem_below_root (ht : IsTree paths) {path : Path} :
    path ∈ below (order.visit Direction.all) paths (levels paths) [] ↔ path ∈ paths ∧ path ≠ [] := by
  rw [mem_below ht mem_visit_all (deep_levels paths [])]
  simp

/-- Locating: the neighbors of maps that are where they belong get where they belong. -/
theorem foldlM_locateNeighbor (base : Coord) {known l : List Path} (locate : Locate)
    (hfirst : ParentsFirst known l)
    (hknown : ∀ path ∈ known, locate path = some (corner base path)) :
    ∃ locate', l.foldlM (fun locate path => locateNeighbor path locate) locate = some locate' ∧
      ∀ path, path ∈ known ∨ path ∈ l → locate' path = some (corner base path) := by
  induction l generalizing known locate with
  | nil => exact ⟨locate, rfl, by simpa using hknown⟩
  | cons path l ih =>
    obtain ⟨⟨direction, parent, hparent, rfl⟩, hrest⟩ := hfirst
    obtain ⟨locate', hfold, hall⟩ := ih (Function.update locate (direction :: parent)
        (some (corner base (direction :: parent)))) hrest (by
      intro path hpath
      by_cases hsame : path = direction :: parent
      · rw [hsame, Function.update_self]
      · rw [Function.update_of_ne hsame]
        exact hknown path ((List.mem_cons.1 hpath).resolve_left hsame))
    refine ⟨locate', ?_, fun path hpath => hall path ?_⟩
    · rw [List.foldlM_cons]
      unfold locateNeighbor
      simp only [hknown parent hparent, Option.bind_eq_bind, Option.bind_some, Option.pure_def]
      rw [corner_cons] at hfold
      exact hfold
    · rcases hpath with hknown' | hmem
      · exact .inl (List.mem_cons_of_mem _ hknown')
      · rcases List.mem_cons.1 hmem with rfl | hl
        · exact .inl List.mem_cons_self
        · exact .inr hl

theorem mapLocate_spec (order : Pairs) (ht : IsTree paths) (base : Coord) (locate : Locate)
    (hroot : locate [] = some base) :
    ∃ locate', mapLocate order paths locate = some locate' ∧
      ∀ path ∈ paths, locate' path = some (corner base path) := by
  unfold mapLocate
  rw [forNeighbors_eq ht]
  obtain ⟨locate', hfold, hall⟩ := foldlM_locateNeighbor base locate
    (parentsFirst_below List.mem_cons_self (levels paths)) (by
      intro path hpath
      rw [List.mem_singleton.1 hpath, corner_nil]
      exact hroot)
  refine ⟨locate', hfold, fun path hpath => hall path ?_⟩
  rcases eq_or_ne path [] with rfl | hne
  · exact .inl List.mem_cons_self
  · exact .inr ((mem_below_root ht).2 ⟨hpath, hne⟩)

/-- The minimum is not above any map, nor above where it started. -/
theorem foldlM_lowerMin {base : Coord} {locate : Locate} {l : List Path} (min : Coord)
    (hlocate : ∀ path ∈ l, locate path = some (corner base path)) :
    ∃ min', l.foldlM (fun min path => lowerMin locate path min) min = some min' ∧
      (min'.x ≤ min.x ∧ min'.y ≤ min.y) ∧
      ∀ path ∈ l, min'.x ≤ (corner base path).x ∧ min'.y ≤ (corner base path).y := by
  induction l generalizing min with
  | nil => exact ⟨min, rfl, ⟨le_rfl, le_rfl⟩, by simp⟩
  | cons path l ih =>
    obtain ⟨min', hfold, hmin, hall⟩ := ih
      ⟨if (corner base path).x < min.x then (corner base path).x else min.x,
        if (corner base path).y < min.y then (corner base path).y else min.y⟩
      fun path' hpath' => hlocate path' (List.mem_cons_of_mem path hpath')
    dsimp only at hmin
    have hhere : (min'.x ≤ min.x ∧ min'.x ≤ (corner base path).x) ∧
        min'.y ≤ min.y ∧ min'.y ≤ (corner base path).y := by
      obtain ⟨hx, hy⟩ := hmin
      split_ifs at hx hy <;> omega
    refine ⟨min', ?_, ⟨hhere.1.1, hhere.2.1⟩, ?_⟩
    · rw [List.foldlM_cons]
      unfold lowerMin
      simp only [hlocate path List.mem_cons_self, Option.bind_eq_bind, Option.bind_some, Option.pure_def]
      exact hfold
    · intro path' hpath'
      rcases List.mem_cons.1 hpath' with rfl | hmem
      · exact ⟨hhere.1.2, hhere.2.2⟩
      · exact hall path' hmem

/-- **Every map is located**, by where its path leads to, and with no negative coordinate. -/
theorem mapsLocate_spec (order : Pairs) (ht : IsTree paths) :
    ∃ locate base, mapsLocate order paths = some locate ∧
      ∀ path ∈ paths, locate path = some (corner base path) ∧ 0 ≤ (corner base path).x ∧ 0 ≤ (corner base path).y := by
  unfold mapsLocate
  obtain ⟨locate, hfirst, hlocate⟩ := mapLocate_spec order ht flagEntryLocate
    (Function.update (fun _ => none) [] (some flagEntryLocate)) (Function.update_self ..)
  obtain ⟨min, hmin, hzero, hbelow⟩ := foldlM_lowerMin ⟨0, 0⟩
    (l := below (order.visit Direction.all) paths (levels paths) [])
    fun path hpath => hlocate path ((mem_below_root ht).1 hpath).1
  have hmin' : mapLocateMin order paths locate ⟨0, 0⟩ = some min := by
    unfold mapLocateMin
    rw [forNeighbors_eq ht]
    exact hmin
  have hlow : ∀ path ∈ paths, min.x ≤ (displacement path).x * flagMapWidth ∧
      min.y ≤ (displacement path).y * flagMapHeight := by
    intro path hpath
    rcases eq_or_ne path [] with rfl | hne
    · simpa [displacement] using hzero
    · simpa [corner, flagEntryLocate] using hbelow path ((mem_below_root ht).2 ⟨hpath, hne⟩)
  simp only [hfirst, hmin', Option.bind_eq_bind, Option.bind_some]
  split_ifs with hnegative
  · obtain ⟨locate', hsecond, hlocate'⟩ := mapLocate_spec order ht ⟨|min.x|, |min.y|⟩
      (Function.update locate [] (some ⟨|min.x|, |min.y|⟩)) (Function.update_self ..)
    refine ⟨locate', ⟨|min.x|, |min.y|⟩, hsecond, fun path hpath => ⟨hlocate' path hpath, ?_⟩⟩
    obtain ⟨hx, hy⟩ := hlow path hpath
    have hxneg := neg_le_abs min.x
    have hyneg := neg_le_abs min.y
    unfold corner
    constructor <;> dsimp only <;> omega
  · refine ⟨locate, flagEntryLocate, rfl, fun path hpath => ⟨hlocate path hpath, ?_⟩⟩
    obtain ⟨hx, hy⟩ := hlow path hpath
    unfold corner flagEntryLocate
    constructor <;> dsimp only <;> omega

end Slam.Layout
