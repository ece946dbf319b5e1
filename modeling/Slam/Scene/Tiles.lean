import Slam.Astar.FindPath

/-!
# `copy/scene.lua`: the tiles of a scene

A scene is a map of tiles. A tile lists the objects that lie on it, events and obstacles, and keeps the
block they add up to. The objects themselves are shared: an event of several tiles is one table, and when it
is accomplished it is so on each of them. So a tile holds references, and what they refer to is kept by the
scene (`self.events` and `self.obstacles`).
-/

namespace Slam.Grid

open Slam.Astar

/-- `BlockCategory` -/
inductive BlockCategory where
  | none
  | dynamic
  | static
  deriving DecidableEq, Repr

/-- The number a category stands for: blocks are compared by it. -/
def BlockCategory.value : BlockCategory → ℕ
  | none => 0
  | dynamic => 1
  | static => 2

/-- `EventEnd` -/
inductive EventEnd where
  | none
  | trigger
  | reward
  deriving DecidableEq, Repr

/-- `GridObjectCategory`, without `NONE`: an event sets `EVENT`, an obstacle `OBSTACLE`. -/
inductive GridObjectCategory where
  | event
  | obstacle
  deriving DecidableEq, Repr

/-- What the scene reads of an object's row. Only the row of an event has an `endtype`. -/
structure ObjectBase where
  width : ℤ
  height : ℤ
  block : BlockCategory
  endtype : Option EventEnd
  deriving DecidableEq, Repr

/-- A reference to an event or an obstacle. -/
structure Ref where
  objectCategory : GridObjectCategory
  id : ℤ
  deriving DecidableEq, Repr

/-- An event or an obstacle. An obstacle has no `accomplish`, which is as good as false. -/
structure GridObject where
  base : ObjectBase
  coord : Coord
  accomplish : Bool
  deriving DecidableEq, Repr

/-- `{objects = {[1]=?, ...}, block = ?}` -/
structure Tile where
  objects : List Ref
  block : BlockCategory
  deriving DecidableEq, Repr

/-- A scene, as far as moving goes. The coordinate of a member is `members[entityid].coord`. -/
structure Scene where
  width : ℤ
  height : ℤ
  tiles : Coord → Option Tile
  objects : Ref → Option GridObject
  members : ℤ → Option Coord
  triggerEvent : Option Ref

namespace Scene

variable (s : Scene)

/-- `valid_coord(coord)` -/
def validCoord (coord : Coord) : Bool :=
  0 ≤ coord.x && 0 ≤ coord.y && coord.x < s.width && coord.y < s.height

/-- `moveable(coord)` -/
def moveable (coord : Coord) : Bool :=
  s.validCoord coord &&
    match s.tiles coord with
    | none => false
    | some t => t.block == .none

/-- The arguments with which the scene calls `FindPath`. -/
def query (src dest : Coord) : Query where
  src := src
  dest := dest
  step := 1
  radius := max s.width s.height
  moveable := s.moveable

theorem moveable_iff {s : Scene} {coord : Coord} :
    s.moveable coord ↔ s.validCoord coord ∧ ∃ t, s.tiles coord = some t ∧ t.block = .none := by
  simp only [moveable, Bool.and_eq_true]
  refine and_congr_right fun _ => ?_
  cases s.tiles coord <;> simp

end Scene

end Slam.Grid
