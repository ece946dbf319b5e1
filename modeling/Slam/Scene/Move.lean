import Slam.Scene.Tiles
import Slam.Astar.Sound

/-!
# `copy/scene.lua`: `move_request` and `move`

A client asks for a destination. `move_request` answers with a path, which the client then walks: one call of
`move` for each coordinate. `move` itself does not look at where the entity comes from, it checks the tile it
is sent to. None stands for an error raised.
-/

namespace Slam.Grid

open Slam.Astar

/-- What `move_request` leads to. -/
inductive Reply where
  /-- It returns false. -/
  | refused
  /-- The entity is there already. -/
  | stays
  /-- The event is handed to `dispatch_event`, whose result is returned. -/
  | dispatched (event : Ref)
  /-- `cc.MoveTrigger(entityid, self.id, fullPath)` -/
  | moves (fullPath : List Coord)
  deriving DecidableEq, Repr

namespace Scene

variable (s : Scene)

/-- `FLAG_trigger_event_distance` -/
def triggerEventDistance : ℕ := 1

/-- The event among the objects of a tile: the first one that is not accomplished, or just the first one. -/
def findEvent (t : Tile) (uncomplete : Bool) : Option Ref :=
  t.objects.find? fun ref =>
    ref.objectCategory == .event &&
      (!uncomplete || (s.objects ref).any fun object => !object.accomplish)

/-- `getEventCoords(event)`: the coordinates an event lies on. -/
def eventCoords (event : GridObject) : List Coord :=
  (List.range event.base.height.toNat).flatMap fun y =>
    (List.range event.base.width.toNat).map fun x => ⟨x + event.coord.x, y + event.coord.y⟩

/-- `checkEventTrigger(src_coord, dest_coord)`: the event at the destination, if it is close enough. -/
def checkEventTrigger (t : Tile) (src : Coord) : Option Ref := do
  let ref ← s.findEvent t true
  let event ← s.objects ref
  if (eventCoords event).any fun coord => cost src coord ≤ triggerEventDistance then some ref else none

/-- `adjust` of `explore_object_coordinate` -/
def around : List Coord := [⟨1, 0⟩, ⟨0, 1⟩, ⟨1, 1⟩, ⟨0, -1⟩, ⟨-1, 0⟩, ⟨-1, -1⟩, ⟨-1, 1⟩, ⟨1, -1⟩]

/-- `explore_object_coordinate(src_coord, dest_coord, coords)` -/
def exploreObjectCoordinate (src dest : Coord) (coords : List Coord) : Option (List Coord) :=
  around.foldlM (fun coords a =>
    let dest : Coord := ⟨dest.x + a.x, dest.y + a.y⟩
    if s.validCoord dest && s.moveable dest then
      match findPath (s.query src dest) with
      | .roads _ => some (coords ++ [dest])
      | .failure _ => some coords
      | .raised => none
    else some coords) coords

/-- The first of the coordinates that are nearest. -/
def nearest (src : Coord) : List Coord → Option Coord
  | [] => none
  | coord :: coords => some (coords.foldl (fun best c => if cost src c < cost src best then c else best) coord)

/-- `explore_around_object(src_coord, object)`: a coordinate from which the object can be touched, nil if
there is none. -/
def exploreAroundObject (src : Coord) (object : GridObject) : Option (Option Coord) :=
  if s.moveable object.coord then some (some object.coord)
  else do
    let right := object.coord.x + object.base.width - 1
    let top := object.coord.y + object.base.height - 1
    let coords ← s.exploreObjectCoordinate src object.coord []
    let coords ← if object.base.width > 1 then s.exploreObjectCoordinate src ⟨right, object.coord.y⟩ coords else some coords
    let coords ← if object.base.height > 1 then s.exploreObjectCoordinate src ⟨object.coord.x, top⟩ coords else some coords
    let coords ← s.exploreObjectCoordinate src ⟨right, top⟩ coords
    some (nearest src coords)

/-- `adjust dest_coord`: a blocked destination with an event is replaced by a coordinate next to the event,
nil if none can be reached. -/
def adjustDest (t : Tile) (src dest : Coord) : Option (Option Coord) :=
  if t.block ≠ .none then
    match s.findEvent t false with
    | some ref => (s.objects ref).bind fun event => s.exploreAroundObject src event
    | none => some (some dest)
  else some (some dest)

/-- The end of `move_request`: the path to the destination, read backwards. -/
def roadsReply (src dest : Coord) : Option Reply :=
  if src = dest then some .stays
  else
    match findPath (s.query src dest) with
    | .raised => none
    | .failure _ => some .refused
    | .roads roads => if roads.length = 0 then some .refused else some (.moves roads.reverse)

/-- `move_request(entityid, destx, desty)`: the scene afterwards and the reply. -/
def moveRequest (entityid : ℤ) (dest : Coord) : Option (Scene × Reply) :=
  match s.members entityid with
  | none => some (s, .refused)
  | some src =>
    if !s.validCoord src || !s.moveable src then some (s, .refused)
    else if !s.validCoord dest then some (s, .refused)
    else do
      let t ← s.tiles dest
      let s := { s with triggerEvent := s.checkEventTrigger t src }
      match s.triggerEvent with
      | some event => return (s, .dispatched event)
      | none =>
        match ← s.adjustDest t src dest with
        | none => return (s, .refused)
        | some dest => return (s, ← s.roadsReply src dest)

/-- `move(entityid, x, y)`: the scene afterwards and the result. The message for a destination that is not
valid formats two variables that do not exist, which raises. -/
def move (entityid : ℤ) (dest : Coord) : Option (Scene × Bool) :=
  match s.members entityid with
  | none => some (s, false)
  | some src =>
    if !s.moveable src then none
    else if !s.validCoord dest then none
    else do
      let t ← s.tiles dest
      if t.block ≠ .none then return (s, false)
      else return ({ s with members := Function.update s.members entityid (some dest) }, true)

/-- The client walks along a path: none unless every step is accepted. -/
def walk (entityid : ℤ) : Scene → List Coord → Option Scene
  | s, [] => some s
  | s, coord :: coords =>
    match s.move entityid coord with
    | some (s, true) => walk entityid s coords
    | _ => none

/-! ### A path that is sent can be walked -/

variable {s} {entityid : ℤ} {dest : Coord}

/-- Moveable coordinates can be walked one after the other. -/
theorem walk_of_moveable {path : List Coord} {src : Coord} (hmember : s.members entityid = some src)
    (hsrc : s.moveable src) (hpath : ∀ c ∈ path, s.moveable c) : ∃ t, walk entityid s path = some t := by
  induction path generalizing s src with
  | nil => exact ⟨s, rfl⟩
  | cons c path ih =>
    have hc := hpath c List.mem_cons_self
    obtain ⟨hvalid, t, ht, hblock⟩ := moveable_iff.1 hc
    have hmove : s.move entityid c
        = some ({ s with members := Function.update s.members entityid (some c) }, true) := by
      simp [move, hmember, hsrc, hvalid, ht, hblock]
    -- the tiles are the same, so what was moveable still is
    obtain ⟨u, hu⟩ := ih (s := { s with members := Function.update s.members entityid (some c) })
      (Function.update_self ..) hc fun c' hc' => hpath c' (List.mem_cons_of_mem _ hc')
    exact ⟨u, by rw [walk, hmove]; exact hu⟩

/-- The path in a reply is moveable. -/
theorem roadsReply_moves {src : Coord} {path : List Coord} (hreply : s.roadsReply src dest = some (.moves path)) :
    ∀ c ∈ path, s.moveable c := by
  rw [roadsReply] at hreply
  split_ifs at hreply with hsame
  · cases hreply
  · split at hreply
    · cases hreply
    · cases hreply
    · rename_i roads hfind
      split_ifs at hreply with hempty
      · cases hreply
      · cases hreply
        intro c hc
        have hroad := List.mem_reverse.1 hc
        rcases findPath_sound (q := s.query src dest) rfl hfind with hpath | ⟨hsrc, -⟩ | ⟨-, -, hnil⟩
        · exact hpath.moveable c hroad
        · exact absurd hsrc hsame
        · exact absurd (congrArg List.length hnil) hempty

/-- **A request that is answered with a path comes from where the entity stands, and leaves the map alone.** -/
theorem moveRequest_moves {s' : Scene} {path : List Coord}
    (hrequest : s.moveRequest entityid dest = some (s', .moves path)) :
    ∃ src event, s.members entityid = some src ∧ s.moveable src ∧ s' = { s with triggerEvent := event } ∧
      ∀ c ∈ path, s.moveable c := by
  rw [moveRequest] at hrequest
  split at hrequest
  · cases hrequest
  · rename_i src hmember
    split_ifs at hrequest with hsrc hdest
    · cases hrequest
    · cases hrequest
    · simp only [Bool.or_eq_true, Bool.not_eq_true', not_or, Bool.not_eq_false] at hsrc
      obtain ⟨t, -, hrequest⟩ := Option.bind_eq_some_iff.1 hrequest
      dsimp only at hrequest
      split at hrequest
      · cases hrequest
      · obtain ⟨dest', -, hrequest⟩ := Option.bind_eq_some_iff.1 hrequest
        split at hrequest
        · cases hrequest
        · obtain ⟨reply, hreply, hend⟩ := Option.bind_eq_some_iff.1 hrequest
          cases hend
          exact ⟨src, _, hmember, hsrc.2, rfl, roadsReply_moves (s := { s with triggerEvent := _ }) hreply⟩

end Scene

/-- **What `FindPath` returns is a path, and a path that is sent can be walked.** With step 1 the list is a
path read backwards, unless the search had nothing to do: then it is `dest` alone if that is moveable and also
`src`, and empty if `dest` is not moveable and `src` no more than one step away. Each step of a path that
`move_request` sends is accepted by `move`. -/
theorem findPath_walked :
    (∀ (q : Query) (coords : List Coord), q.step = 1 → findPath q = .roads coords →
      q.IsPath coords ∨ (q.src = q.dest ∧ q.moveable q.dest ∧ coords = [q.dest]) ∨
        (cost q.src q.dest ≤ 1 ∧ ¬ q.moveable q.dest ∧ coords = [])) ∧
    (∀ (s s' : Scene) (entityid : ℤ) (dest : Coord) (path : List Coord),
      s.moveRequest entityid dest = some (s', .moves path) → ∃ t, Scene.walk entityid s' path = some t) := by
  refine ⟨fun q coords hstep hfind => findPath_sound hstep hfind, fun s s' entityid dest path hrequest => ?_⟩
  obtain ⟨src, event, hmember, hsrc, rfl, hpath⟩ := Scene.moveRequest_moves hrequest
  exact Scene.walk_of_moveable hmember hsrc hpath

/-- A corridor of three tiles, with an entity at the left. -/
def corridor : Scene where
  width := 3
  height := 1
  tiles coord := if coord.y = 0 ∧ 0 ≤ coord.x ∧ coord.x < 3 then some ⟨[], .none⟩ else none
  objects _ := none
  members entityid := if entityid = 7 then some ⟨0, 0⟩ else none
  triggerEvent := none

/-- The entity asks for the right end and walks there. -/
theorem findPath_walked_corridor :
    (∃ t, Scene.walk 7 corridor [⟨1, 0⟩, ⟨2, 0⟩] = some t) ∧
      (corridor.query ⟨0, 0⟩ ⟨2, 0⟩).IsPath [⟨2, 0⟩, ⟨1, 0⟩] := by
  refine ⟨findPath_walked.2 corridor corridor 7 ⟨2, 0⟩ [⟨1, 0⟩, ⟨2, 0⟩] (by rfl), ?_⟩
  rcases findPath_walked.1 (corridor.query ⟨0, 0⟩ ⟨2, 0⟩) [⟨2, 0⟩, ⟨1, 0⟩] rfl (by rfl) with
    h | ⟨h, -⟩ | ⟨h, -⟩
  · exact h
  · exact absurd h (by decide)
  · exact absurd h (by decide)

/-- With `src` at a `dest` that is not moveable the list is empty as well, though the distance is not 1. -/
theorem findPath_src_is_dest :
    ¬ ∀ (q : Query) (coords : List Coord), q.step = 1 → findPath q = .roads coords →
      q.IsPath coords ∨ (q.src = q.dest ∧ coords = [q.dest]) ∨
        (Adjacent q.src q.dest ∧ ¬ q.moveable q.dest ∧ coords = []) := by
  intro h
  rcases h ⟨⟨0, 0⟩, ⟨0, 0⟩, 1, 2, fun coord => coord == ⟨1, 0⟩⟩ [] rfl (by rfl) with hpath | ⟨-, hlist⟩ | ⟨hadj, -⟩
  · obtain ⟨c, hc, -⟩ := hpath.arrives
    cases hc
  · cases hlist
  · exact absurd hadj (by decide)

end Slam.Grid
