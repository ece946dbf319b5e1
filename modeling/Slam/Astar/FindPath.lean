import Slam.Astar.HeapStack

/-!
# `tools/astar.lua`: `FindPath`

A search from `src` to a coordinate straight next to `dest`. Its nodes come from a pool of
`MAX_NUMBER * 8 + 1` preallocated ones: the root has the last place, what turn `count` enters in direction
`i` the place `count * 8 + i`. A node is therefore never written a second time before the turn `MAX_NUMBER`,
and a father link is the father itself. In that turn direction `0` writes over the root, which no one reads
again, and any other direction is beyond the pool: its node is nil, and the script raises an error.

The costs of the coordinates entered are kept under `index`, which is the place of a coordinate in the square
of radius `radius` around `dest`. A coordinate outside of the square is either left out or shares its place
with another one.
-/

namespace Slam.Astar

/-- `{x = ?, y = ?}` -/
structure Coord where
  x : ℤ
  y : ℤ
  deriving DecidableEq, Repr

/-- `COST`, the Manhattan distance. -/
def cost (startpos endpos : Coord) : ℕ := (endpos.x - startpos.x).natAbs + (endpos.y - startpos.y).natAbs

/-- `adjust`, the four directions. -/
def adjust : List Coord := [⟨1, 0⟩, ⟨0, -1⟩, ⟨0, 1⟩, ⟨-1, 0⟩]

/-- `passable(coord, moveable)` -/
def passable (coord : Coord) (moveable : Coord → Bool) : Bool :=
  adjust.any fun a => moveable ⟨coord.x + a.x, coord.y + a.y⟩

/-- The arguments of `FindPath`. -/
structure Query where
  src : Coord
  dest : Coord
  step : ℤ
  radius : ℤ
  moveable : Coord → Bool

/-- `{pos = ?, f = ?, g = ?, father = ?}`; the root is the node whose father is nil, and its `g` is `0`. -/
inductive Node where
  | root (pos : Coord) (f : ℕ)
  | child (pos : Coord) (g f : ℕ) (father : Node)

/-- `FindPath` returns a list of coordinates or nil and an errorstring, unless it raises. -/
inductive Result where
  | roads (coords : List Coord)
  | failure (errorstring : String)
  | raised

/-- The variables of the search: `heapStack` up to its cursor, `costStack`, `root` and `count`. -/
structure Search where
  heapStack : List Node
  costStack : ℤ → Option ℕ
  root : Node
  count : ℕ

namespace Node

def pos : Node → Coord
  | root pos _ => pos
  | child pos _ _ _ => pos

def g : Node → ℕ
  | root _ _ => 0
  | child _ g _ _ => g

def f : Node → ℕ
  | root _ f => f
  | child _ _ f _ => f

/-- The loop at the end: the positions from a node back to the child of the root, nil if it is the root. -/
def fullPath : Node → Option (List Coord)
  | root _ _ => none
  | child pos _ _ father =>
    match father with
    | root _ _ => some [pos]
    | child .. => father.fullPath.map (pos :: ·)

end Node

namespace Query

/-- `MAX_DISMETER` -/
def maxDismeter (q : Query) : ℤ := q.radius * 2 + 1

/-- `MAX_NUMBER`, a square. -/
def maxNumber (q : Query) : ℕ := (q.maxDismeter * q.maxDismeter).toNat

/-- The place of a coordinate in `costStack`. -/
def index (q : Query) (pos : Coord) : ℤ :=
  (pos.y - q.dest.y + q.radius) * q.maxDismeter + (pos.x - q.dest.x + q.radius)

/-- The condition on which the search stops, and on which it does not even start: in the row or the column
of `dest`, no further than `step` away. -/
def near (q : Query) (pos : Coord) : Bool :=
  (|pos.x - q.dest.x| ≤ q.step && pos.y == q.dest.y) || (|pos.y - q.dest.y| ≤ q.step && pos.x == q.dest.x)

/-- Whether a coordinate may be entered at this cost, again or for the first time. -/
def cheaper (q : Query) (costStack : ℤ → Option ℕ) (pos : Coord) (cost : ℕ) : Bool :=
  0 ≤ q.index pos && q.index pos < q.maxNumber &&
    match costStack (q.index pos) with
    | none => true
    | some known => cost < known || known == 0

/-- `tempPos`, the coordinate in a direction. -/
def tempPos (q : Query) (root : Node) (direction : Coord) : Coord :=
  ⟨root.pos.x + direction.x * q.step, root.pos.y + direction.y * q.step⟩

/-- The search after a coordinate has been entered from the root. -/
def entered (q : Query) (s : Search) (pos : Coord) : Search :=
  let g := s.root.g + 1
  { s with
    costStack := Function.update s.costStack (q.index pos) (some g)
    heapStack := intoHeap Node.f s.heapStack (.child pos g (g + cost pos q.dest) s.root) }

/-- The body of the inner loop: enter the coordinate in direction `i`, none if the pool has no such node. -/
def enter (q : Query) (s : Search) (direction : Coord × ℕ) : Option Search :=
  let pos := q.tempPos s.root direction.1
  if q.moveable pos && q.cheaper s.costStack pos (s.root.g + 1) then
    if s.count * 8 + direction.2 ≤ q.maxNumber * 8 then some (q.entered s pos) else none
  else some s

/-- The inner loop. -/
def expand (q : Query) (s : Search) : Option Search := adjust.zipIdx.foldlM q.enter s

/-- What the search returns when it has stopped at a node. -/
def result (q : Query) (node : Node) : Result :=
  match node.fullPath with
  | some coords => .roads (if q.moveable q.dest then q.dest :: coords else coords)
  | none => .failure "not available path"

/-- One turn of the outer loop: the search goes on, or it is over. -/
def turn (q : Query) (s : Search) : Search ⊕ Result :=
  if q.near s.root.pos then .inr (q.result s.root)
  else
    match q.expand s with
    | none => .inr .raised
    | some s =>
      match exitHeap Node.f s.heapStack with
      | none => .inr (.failure "destination unreachable")
      | some (root, heapStack) => .inl { s with root, heapStack, count := s.count + 1 }

/-- The outer loop: as many turns are left until `count` is above `MAX_NUMBER`. -/
def search (q : Query) : ℕ → Search → Result
  | 0, _ => .failure "destination unreachable, overflow"
  | turns + 1, s =>
    match q.turn s with
    | .inl s => q.search turns s
    | .inr result => result

/-- The root of the search. -/
def origin (q : Query) : Node := .root q.src (cost q.src q.dest)

/-- The variables before the first turn. -/
def start (q : Query) : Search where
  heapStack := intoHeap Node.f [] q.origin
  costStack _ := none
  root := q.origin
  count := 0

end Query

/-- `FindPath(src, dest, step, radius, moveable)` -/
def findPath (q : Query) : Result :=
  if !passable q.src q.moveable then .failure "src coord is unreachable"
  else if !passable q.dest q.moveable then .failure "dest coord is unreachable"
  else if |q.dest.x - q.src.x| > q.radius * q.step || |q.dest.y - q.src.y| > q.radius * q.step then
    .failure "destination too far"
  else if q.near q.src then .roads (if q.moveable q.dest then [q.dest] else [])
  else q.search (q.maxNumber + 1) q.start

end Slam.Astar
