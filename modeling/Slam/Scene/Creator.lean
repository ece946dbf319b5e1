import Slam.Scene.Tiles
import Slam.Random.Generator

/-!
# `copy/scene_creator.lua`: what a scene is made of

A scene is made before anyone is in it. No event has been accomplished by then, so that the block of a tile is
the highest one of the objects on it (`MadeTile`), and what lies on a tile is kept with its row. Ids come from
counters, as `cc.EventNew` and `cc.ObstacleNew` give them, which is why the assertions of
`create_event_object` and `create_obstacle_object` hold (`createEventObject_new`). None stands for an error
raised.

* `tilesFill`, `tilesAvailableGrid`, `passable`: the functions on the tiles;
* `tilesEventGenerator`: the events are created, those with coordinates are laid, the others find a place;
* `Filled`: what filling leaves as it was, and `tilesFill_spec`.
-/

namespace Slam.Grid

open Slam.Astar Slam.Random
open Slam.Game (EventCategory)

/-- The row of an object of the scene. Its sides are positive, which is asserted wherever it is looked up. -/
structure ObjectRow where
  base : ObjectBase
  requireTile : Bool
  width_pos : 0 < base.width
  height_pos : 0 < base.height

/-- A row of the table `Event`. -/
structure EventRow extends ObjectRow where
  category : EventCategory

/-- A row of the table `Map`, with `tile_obstacle_baseid` as `tile_obstacle_baseid_init` picks it from the
obstacles of the row; the constructor asserts that there is one. -/
structure MapRow where
  width : ℤ
  height : ℤ
  chessboard : Bool
  tileObstacles : List ObjectRow
  width_pos : 0 < width
  height_pos : 0 < height
  tileObstacles_ne : tileObstacles ≠ []
  tileObstacles_block : ∀ row ∈ tileObstacles, row.base.block = .none

/-- The order in which `pairs` visits a table. -/
structure Pairs where
  visit : {ι : Type} → List ι → List ι
  visit_perm : ∀ {ι : Type} (t : List ι), (visit t).Perm t

/-- Everything in the order in which it was entered. -/
def Pairs.inOrder : Pairs := ⟨id, fun _ => .refl _⟩

/-- An object as it lies on a tile. -/
structure Laid where
  ref : Ref
  base : ObjectBase
  deriving DecidableEq

/-- `resetblock(coord)`, when no object is accomplished: the highest block. -/
def resetblock (objects : List Laid) : BlockCategory :=
  objects.foldl (fun block object => if object.base.block.value > block.value then object.base.block else block) .none

/-- A tile after `resetblock`. -/
structure MadeTile where
  objects : List Laid
  block : BlockCategory
  block_eq : block = resetblock objects

/-- The tile of these objects. -/
def MadeTile.reset (objects : List Laid) : MadeTile := ⟨objects, resetblock objects, rfl⟩

/-- An event, which may not have its coordinate yet. -/
structure Event where
  id : ℕ
  row : EventRow
  coord : Option Coord

/-- An obstacle. -/
structure Obstacle where
  id : ℕ
  row : ObjectRow
  coord : Coord

/-- A scene in the making: its tables, the seed of its `random_func` and the ids given out so far. -/
structure Making where
  tiles : Coord → Option MadeTile
  events : List Event
  obstacles : List Obstacle
  roads : List Coord
  seed : ℤ
  eventId : ℕ
  obstacleId : ℕ
  events_le : ∀ event ∈ events, event.id ≤ eventId
  events_nodup : (events.map Event.id).Nodup
  obstacles_le : ∀ obstacle ∈ obstacles, obstacle.id ≤ obstacleId

/-- An event on a tile. -/
def Event.laid (event : Event) : Laid := ⟨⟨.event, event.id⟩, event.row.base⟩

/-- An obstacle on a tile. -/
def Obstacle.laid (obstacle : Obstacle) : Laid := ⟨⟨.obstacle, obstacle.id⟩, obstacle.row.base⟩

/-- The coordinates of an object, in the order in which they are filled. -/
def footprint (base : ObjectBase) (coord : Coord) : List Coord :=
  (List.range base.height.toNat).flatMap fun (y : ℕ) =>
    (List.range base.width.toNat).map fun (x : ℕ) => ⟨x + coord.x, y + coord.y⟩

/-- An array as `pairs` takes it: its places and what is there. -/
def numbered {α : Type} (t : List α) : List (ℕ × α) := (t.zipIdx 1).map fun entry => (entry.2, entry.1)

/-- `valid_coord(coord)` -/
def MapRow.validCoord (map : MapRow) (coord : Coord) : Bool :=
  0 ≤ coord.x && 0 ≤ coord.y && coord.x < map.width && coord.y < map.height

/-! ### Coordinates and tables -/

theorem validCoord_iff {map : MapRow} {c : Coord} :
    map.validCoord c ↔ (0 ≤ c.x ∧ c.x < map.width) ∧ 0 ≤ c.y ∧ c.y < map.height := by
  simp only [MapRow.validCoord, Bool.and_eq_true, decide_eq_true_eq]
  omega

theorem mem_footprint {base : ObjectBase} {coord c : Coord} :
    c ∈ footprint base coord ↔
      (coord.x ≤ c.x ∧ c.x < coord.x + base.width) ∧ coord.y ≤ c.y ∧ c.y < coord.y + base.height := by
  unfold footprint
  simp only [List.mem_flatMap, List.mem_range, List.mem_map]
  constructor
  · rintro ⟨y, hy, x, hx, rfl⟩
    refine ⟨⟨?_, ?_⟩, ?_, ?_⟩ <;> dsimp only <;> omega
  · rintro ⟨⟨hleft, hright⟩, hbottom, htop⟩
    refine ⟨(c.y - coord.y).toNat, by omega, (c.x - coord.x).toNat, by omega, ?_⟩
    have hx : ((c.x - coord.x).toNat : ℤ) + coord.x = c.x := by omega
    have hy : ((c.y - coord.y).toNat : ℤ) + coord.y = c.y := by omega
    rw [hx, hy]

theorem length_numbered {α : Type} (t : List α) : (numbered t).length = t.length := by simp [numbered]

theorem mem_of_numbered {α : Type} {t : List α} {entry : ℕ × α} (h : entry ∈ numbered t) : entry.2 ∈ t := by
  obtain ⟨⟨a, i⟩, hmem, rfl⟩ := List.mem_map.1 h
  exact (List.mem_zipIdx hmem).2.2 ▸ List.getElem_mem _

theorem exists_numbered {α : Type} {t : List α} {a : α} (h : a ∈ t) : ∃ i, (i, a) ∈ numbered t := by
  obtain ⟨i, hi, rfl⟩ := List.getElem_of_mem h
  refine ⟨i + 1, List.mem_map.2 ⟨(t[i], i + 1), ?_, rfl⟩⟩
  rw [List.mk_mem_zipIdx_iff_le_and_getElem?_sub]
  simp [hi]

theorem nodup_numbered {α : Type} (t : List α) : ((numbered t).map Prod.fst).Nodup := by
  have hkeys : (numbered t).map Prod.fst = List.range' 1 t.length := by
    rw [numbered, List.map_map]
    exact List.zipIdx_map_snd 1 t
  rw [hkeys]
  exact List.nodup_range'

/-- `table.random` finds an entry of a table that is not empty. -/
theorem tableRandom_visit (order : Pairs) {α : Type} {t : List (ℕ × α)} (hne : t ≠ []) (seed : ℤ) :
    ∃ entry ∈ t, ∃ seed', tableRandom (order.visit t) (tableSize t) NewRandom seed = (some entry, seed') := by
  have hperm := order.visit_perm t
  have hpos : 0 < t.length := List.length_pos_iff.2 hne
  have hdrawn : (0 : ℤ) ≤ (Game.newRandom seed 0 (t.length - 1)).1 ∧
      (Game.newRandom seed 0 (t.length - 1)).1 ≤ t.length - 1 := Game.newRandom_mem (by omega)
  rw [← NewRandom_eq] at hdrawn
  have hlength := hperm.length_eq
  obtain ⟨entry, hmem, hentry⟩ := exists_tableAt (order.visit t) hdrawn.1 (by omega)
  refine ⟨entry, hperm.mem_iff.1 hmem, (NewRandom seed 0 (t.length - 1)).2, ?_⟩
  unfold tableRandom tableSize
  rw [if_pos (by omega)]
  simp only [hentry]

namespace Making

variable (map : MapRow) (order : Pairs)

/-- `tiles_init()`; the seed and the counters go on. -/
def tilesInit (m : Making) : Making where
  tiles _ := none
  events := []
  obstacles := []
  roads := []
  seed := m.seed
  eventId := m.eventId
  obstacleId := m.obstacleId
  events_le := by simp
  events_nodup := by simp
  obstacles_le := by simp

/-- `create_event_object(event_baseid, coord)` -/
def createEventObject (m : Making) (row : EventRow) (coord : Option Coord) : Making :=
  { m with
    events := m.events ++ [⟨m.eventId + 1, row, coord⟩]
    eventId := m.eventId + 1
    events_le := by
      intro event hmem
      rcases List.mem_append.1 hmem with hold | hnew
      · exact (m.events_le event hold).trans (Nat.le_succ _)
      · rw [List.mem_singleton.1 hnew]
    events_nodup := by
      rw [List.map_append, List.map_singleton]
      refine List.nodup_append.2 ⟨m.events_nodup, List.nodup_singleton _, ?_⟩
      intro id hid new hnew
      obtain ⟨event, hmem, rfl⟩ := List.mem_map.1 hid
      rw [List.mem_singleton.1 hnew]
      exact (Nat.lt_succ_of_le (m.events_le event hmem)).ne }

/-- `create_obstacle_object(obstacle_baseid, coord)`: the new obstacle comes last. -/
def createObstacleObject (m : Making) (row : ObjectRow) (coord : Coord) : Making :=
  { m with
    obstacles := m.obstacles ++ [⟨m.obstacleId + 1, row, coord⟩]
    obstacleId := m.obstacleId + 1
    obstacles_le := by
      intro obstacle hmem
      rcases List.mem_append.1 hmem with hold | hnew
      · exact (m.obstacles_le obstacle hold).trans (Nat.le_succ _)
      · rw [List.mem_singleton.1 hnew] }

/-- `event.coord = coord` -/
def setCoord (m : Making) (id : ℕ) (coord : Coord) : Making :=
  { m with
    events := m.events.map fun event => if event.id = id then { event with coord := some coord } else event
    events_le := by
      intro event hmem
      obtain ⟨old, hold, rfl⟩ := List.mem_map.1 hmem
      have hid := m.events_le old hold
      split_ifs <;> exact hid
    events_nodup := by
      have hids : (Event.id ∘ fun event => if event.id = id then { event with coord := some coord } else event) =
          Event.id := by
        funext event
        simp only [Function.comp_apply]
        split_ifs <;> rfl
      rw [List.map_map, hids]
      exact m.events_nodup }

/-- A tile gets these objects, and its block. -/
def setTile (m : Making) (coord : Coord) (objects : List Laid) : Making :=
  { m with tiles := Function.update m.tiles coord (some (.reset objects)) }

/-- `tile_obstacle_baseid_retrieve(coord)` -/
def tileObstacleRetrieve (m : Making) (coord : Coord) : Option ObjectRow × Making :=
  if map.chessboard then
    let size : ℤ := map.tileObstacles.length
    let value := (coord.x % size + coord.y % 2) % size + 1
    (map.tileObstacles[(value - 1).toNat]?, m)
  else
    let t := numbered map.tileObstacles
    let (found, seed) := tableRandom (order.visit t) (tableSize t) NewRandom m.seed
    (found.map Prod.snd, { m with seed })

/-- The body of the loops of `tiles_fill`: an object is laid on one tile. -/
def fill (object : Laid) (requireTile : Bool) (m : Making) (coord : Coord) : Option Making :=
  if map.validCoord coord then
    match m.tiles coord with
    | none =>
      if requireTile then
        match m.tileObstacleRetrieve map order coord with
        | (none, _) => none
        | (some row, m) =>
          let tile : Obstacle := ⟨m.obstacleId + 1, row, coord⟩
          some ((m.createObstacleObject row coord).setTile coord [tile.laid, object])
      else some (m.setTile coord [object])
    | some t => some (m.setTile coord (t.objects ++ [object]))
  else none

/-- `tiles_fill(object)`. The object is in its table since it was created. -/
def tilesFill (m : Making) (object : Laid) (requireTile : Bool) (coord : Coord) : Option Making :=
  (footprint object.base coord).foldlM (fill map order object requireTile) m

/-- `tiles_check_grid(coord, rect)`, for a coordinate of the map. -/
def tilesCheckGrid (m : Making) (rect : ObjectBase) (coord : Coord) : Bool :=
  (footprint rect coord).all fun c => c.y < map.height && c.x < map.width && (m.tiles c).isNone

/-- The coordinates of the map, row by row. -/
def grid : List Coord :=
  (List.range map.height.toNat).flatMap fun (y : ℕ) => (List.range map.width.toNat).map fun (x : ℕ) => ⟨x, y⟩

/-- `tiles_available_grid(rect)` -/
def tilesAvailableGrid (m : Making) (rect : ObjectBase) : List Coord :=
  (grid map).filter (m.tilesCheckGrid map rect)

/-- The objects because of which no one will ever pass a tile. -/
def stands (base : ObjectBase) : Bool :=
  base.block == .static || (base.block == .dynamic && base.endtype == some .none)

/-- `passable(coord)` -/
def passable (m : Making) (coord : Coord) : Bool :=
  map.validCoord coord &&
    match m.tiles coord with
    | none => true
    | some t => t.block == .none || (t.block != .static && t.objects.all fun object => !stands object.base)

/-- `moveable(coord)` -/
def moveable (m : Making) (coord : Coord) : Bool :=
  map.validCoord coord &&
    match m.tiles coord with
    | none => false
    | some t => t.block == .none

/-! ### The events -/

/-- An entry of `STICK_events` or `events_base`. -/
structure EventSpec where
  row : EventRow
  coord : Option Coord

/-- The body of `event_generator` -/
def eventGenerate (m : Making) (t : EventSpec) : Option Making :=
  if t.coord.all map.validCoord then some (m.createEventObject t.row t.coord) else none

/-- `event_generator(events)` -/
def eventGenerator (events : List EventSpec) (m : Making) : Option Making :=
  (order.visit events).foldlM (eventGenerate map) m

/-- `event_distance(coord, FLAG_event_distance)` -/
def eventDistance (m : Making) (coord : Coord) (distance : ℤ) : Bool :=
  m.events.all fun event =>
    match event.coord with
    | none => true
    | some c => !(|c.x - coord.x| - 1 < distance || |c.y - coord.y| - 1 < distance)

/-- `self.FLAG_event_distance` -/
def flagEventDistance : ℤ := 1

/-- The inner loop: candidates are drawn until one keeps its distance; the seed goes on. As many turns are
enough as there are candidates. -/
def tryGrids (m : Making) (distance : ℤ) : ℕ → List (ℕ × Coord) → ℤ → Option Coord × ℤ
  | 0, _, seed => (none, seed)
  | turns + 1, t, seed =>
    if 0 < tableSize t then
      match tableRandom (order.visit t) (tableSize t) NewRandom seed with
      | (some (i, coord), seed) =>
        if m.eventDistance coord distance then (some coord, seed)
        else tryGrids m distance turns (t.filter fun entry => entry.1 ≠ i) seed
      | (none, seed) => (none, seed)
    else (none, seed)

/-- One try at a distance: the candidate that was taken. -/
def tryDistance (m : Making) (event : Event) (distance : ℤ) : Option Coord × Making :=
  let t := numbered (m.tilesAvailableGrid map event.row.base)
  let (coord, seed) := m.tryGrids order distance t.length t m.seed
  (coord, { m with seed })

/-- `event.coord = coord; self:tiles_fill(event)` -/
def settle (m : Making) (event : Event) (coord : Coord) : Option Making :=
  (m.setCoord event.id coord).tilesFill map order event.laid event.row.requireTile coord

/-- The loop `while event.coord == nil`: the distance is lowered, and asserted not to fall below zero. -/
def placeEvent (event : Event) : ℕ → Making → Option Making
  | 0, m =>
    match m.tryDistance map order event 0 with
    | (some coord, m) => m.settle map order event coord
    | (none, _) => none
  | distance + 1, m =>
    match m.tryDistance map order event (distance + 1) with
    | (some coord, m) => m.settle map order event coord
    | (none, m) => placeEvent event distance m

/-- The first loop over the events: those with coordinates are laid. -/
def fillEvent (m : Making) (event : Event) : Option Making :=
  match event.coord with
  | some coord => m.tilesFill map order event.laid event.row.requireTile coord
  | none => some m

/-- The second loop over the events: the others find a place. -/
def locateEvent (m : Making) (event : Event) : Option Making :=
  match event.coord with
  | some _ => some m
  | none => placeEvent map order event (max flagEventDistance 0).toNat m

/-- `tiles_event_generator()` up to the events that have no coordinates. -/
def fixedEvents (stickEvents eventsBase : List EventSpec) (m : Making) : Option Making := do
  let m ← m.eventGenerator map order stickEvents
  let m ← m.eventGenerator map order eventsBase
  (order.visit m.events).foldlM (fillEvent map order) m

/-- `tiles_event_generator()`. In the loop at the end the coordinates of an event without any cannot be
written down. -/
def tilesEventGenerator (stickEvents eventsBase : List EventSpec) (m : Making) : Option Making := do
  let m ← m.fixedEvents map order stickEvents eventsBase
  let m ← (order.visit m.events).foldlM (locateEvent map order) m
  if m.events.all fun event => event.coord.isSome then some m else none

/-! ### The tiles -/

theorem mem_grid {map : MapRow} {c : Coord} : c ∈ grid map ↔ map.validCoord c := by
  unfold grid
  simp only [validCoord_iff, List.mem_flatMap, List.mem_range, List.mem_map]
  constructor
  · rintro ⟨y, hy, x, hx, rfl⟩
    refine ⟨⟨?_, ?_⟩, ?_, ?_⟩ <;> dsimp only <;> omega
  · rintro ⟨⟨hleft, hright⟩, hbottom, htop⟩
    refine ⟨c.y.toNat, by omega, c.x.toNat, by omega, ?_⟩
    rw [Int.toNat_of_nonneg hleft, Int.toNat_of_nonneg hbottom]

/-- The loop of `resetblock`: the result is at least any of the blocks, and no higher than needed. -/
theorem foldl_highest {α : Type} (block : α → BlockCategory) (objects : List α) :
    let highest := objects.foldl (fun highest object => if (block object).value > highest.value then block object else highest) .none
    (∀ object ∈ objects, (block object).value ≤ highest.value) ∧ (highest = .none ∨ ∃ object ∈ objects, block object = highest) := by
  intro highest
  induction objects using List.reverseRecOn with
  | nil => simp [highest]
  | append_singleton objects last ih =>
    obtain ⟨hle, hfrom⟩ := ih
    unfold highest
    rw [List.foldl_append, List.foldl_cons, List.foldl_nil]
    split_ifs with hhigher
    · refine ⟨fun object hmem => ?_, .inr ⟨last, by simp, rfl⟩⟩
      rcases List.mem_append.1 hmem with hold | hlast
      · exact (hle object hold).trans hhigher.le
      · rw [List.mem_singleton.1 hlast]
    · refine ⟨fun object hmem => ?_, ?_⟩
      · rcases List.mem_append.1 hmem with hold | hlast
        · exact hle object hold
        · rw [List.mem_singleton.1 hlast]
          exact not_lt.1 hhigher
      · rcases hfrom with hnone | ⟨object, hmem, heq⟩
        · exact .inl hnone
        · exact .inr ⟨object, List.mem_append_left _ hmem, heq⟩

theorem resetblock_spec (objects : List Laid) :
    (∀ object ∈ objects, object.base.block.value ≤ (resetblock objects).value) ∧
      (resetblock objects = .none ∨ ∃ object ∈ objects, object.base.block = resetblock objects) :=
  foldl_highest (fun object => object.base.block) objects

/-- Whether a tile can be passed is a matter of its objects alone. -/
theorem passable_iff {map : MapRow} {m : Making} {c : Coord} :
    m.passable map c ↔
      map.validCoord c ∧ ∀ t, m.tiles c = some t → ∀ object ∈ t.objects, stands object.base = false := by
  unfold passable
  rw [Bool.and_eq_true]
  refine and_congr_right fun _ => ?_
  rcases htile : m.tiles c with _ | t
  · simp
  obtain ⟨hle, hfrom⟩ := resetblock_spec t.objects
  rw [← t.block_eq] at hle hfrom
  have hall : (t.objects.all fun object => !stands object.base) ↔
      ∀ object ∈ t.objects, stands object.base = false := by simp
  simp only [Bool.or_eq_true, Bool.and_eq_true, beq_iff_eq, bne_iff_ne, hall, Option.some.injEq, forall_eq']
  constructor
  · rintro (hnone | ⟨-, hfree⟩)
    · intro object hmem
      have hblock := hle object hmem
      rw [hnone] at hblock
      cases hobject : object.base.block <;> simp_all [BlockCategory.value, stands]
    · exact hfree
  · intro hfree
    refine .inr ⟨fun hstatic => ?_, hfree⟩
    rcases hfrom with hnone | ⟨object, hmem, hblock⟩
    · rw [hstatic] at hnone
      exact absurd hnone (by decide)
    · have hstands := hfree object hmem
      simp [stands, hblock, hstatic] at hstands

theorem passable_of_moveable {map : MapRow} {m : Making} {c : Coord} (h : m.moveable map c) : m.passable map c := by
  unfold moveable at h
  unfold passable
  rw [Bool.and_eq_true] at h ⊢
  refine ⟨h.1, ?_⟩
  have hblock := h.2
  cases htile : m.tiles c with
  | none => rfl
  | some t =>
    simp only [htile] at hblock ⊢
    rw [hblock, Bool.true_or]

/-! ### Filling -/

variable {map order}

/-- There is always a tile obstacle to take. -/
theorem tileObstacleRetrieve_spec (map : MapRow) (order : Pairs) (m : Making) (coord : Coord) :
    ∃ row ∈ map.tileObstacles, ∃ seed, m.tileObstacleRetrieve map order coord = (some row, { m with seed }) := by
  have hpos : 0 < map.tileObstacles.length := List.length_pos_iff.2 map.tileObstacles_ne
  unfold tileObstacleRetrieve
  split_ifs with hchessboard
  · have hsize : (0 : ℤ) < map.tileObstacles.length := by exact_mod_cast hpos
    have hlow := Int.emod_nonneg (coord.x % map.tileObstacles.length + coord.y % 2) hsize.ne'
    have hhigh := Int.emod_lt_of_pos (coord.x % map.tileObstacles.length + coord.y % 2) hsize
    have hplace : ((coord.x % map.tileObstacles.length + coord.y % 2) % map.tileObstacles.length + 1 - 1).toNat <
        map.tileObstacles.length := by omega
    exact ⟨_, List.getElem_mem hplace, m.seed, by simp only [List.getElem?_eq_getElem hplace]⟩
  · have hne : numbered map.tileObstacles ≠ [] := by
      rw [← List.length_pos_iff, length_numbered]
      exact hpos
    obtain ⟨entry, hmem, seed, hdrawn⟩ := tableRandom_visit order hne m.seed
    refine ⟨entry.2, mem_of_numbered hmem, seed, ?_⟩
    simp only [hdrawn, Option.map_some]

/-- What laying an object on some coordinates comes to. -/
structure Filled (object : Laid) (area : List Coord) (m m' : Making) : Prop where
  events : m'.events = m.events
  roads : m'.roads = m.roads
  others : ∀ c ∉ area, m'.tiles c = m.tiles c
  objects : ∀ c ∈ area, ∃ t, m'.tiles c = some t ∧
    ∀ o ∈ t.objects, o = object ∨ o.base.block = .none ∨ ∃ t₀, m.tiles c = some t₀ ∧ o ∈ t₀.objects

theorem Filled.cons {object : Laid} {c : Coord} {area : List Coord} {m m₁ m' : Making}
    (hfirst : Filled object [c] m m₁) (hrest : Filled object area m₁ m') : Filled object (c :: area) m m' where
  events := hrest.events.trans hfirst.events
  roads := hrest.roads.trans hfirst.roads
  others d hd := by
    rw [List.mem_cons, not_or] at hd
    rw [hrest.others d hd.2]
    exact hfirst.others d (by simpa using hd.1)
  objects d hd := by
    by_cases hmem : d ∈ area
    · obtain ⟨t, ht, hobjects⟩ := hrest.objects d hmem
      refine ⟨t, ht, fun o ho => ?_⟩
      rcases hobjects o ho with hown | hnone | ⟨t₁, ht₁, hold⟩
      · exact .inl hown
      · exact .inr (.inl hnone)
      · by_cases hdc : d = c
        · subst hdc
          obtain ⟨t₂, ht₂, hbefore⟩ := hfirst.objects d (List.mem_singleton_self d)
          rw [ht₂, Option.some.injEq] at ht₁
          exact hbefore o (ht₁ ▸ hold)
        · rw [hfirst.others d (by simpa using hdc)] at ht₁
          exact .inr (.inr ⟨t₁, ht₁, hold⟩)
    · obtain rfl : d = c := by simpa [hmem] using hd
      rw [hrest.others d hmem]
      exact hfirst.objects d (List.mem_singleton_self d)

theorem Filled.setTile {object : Laid} {c : Coord} {m m₁ : Making} {objects : List Laid}
    (htiles : m₁.tiles = m.tiles) (hevents : m₁.events = m.events) (hroads : m₁.roads = m.roads)
    (hobjects : ∀ o ∈ objects, o = object ∨ o.base.block = .none ∨ ∃ t₀, m.tiles c = some t₀ ∧ o ∈ t₀.objects) :
    Filled object [c] m (m₁.setTile c objects) where
  events := hevents
  roads := hroads
  others d hd := by
    simp only [Making.setTile]
    rw [Function.update_of_ne (by simpa using hd), htiles]
  objects d hd := by
    obtain rfl := List.mem_singleton.1 hd
    exact ⟨.reset objects, by simp [Making.setTile], hobjects⟩

/-- A tile of the map can be filled. -/
theorem fill_spec (order : Pairs) (object : Laid) (requireTile : Bool) (m : Making) {c : Coord}
    (hvalid : map.validCoord c) :
    ∃ m', fill map order object requireTile m c = some m' ∧ Filled object [c] m m' := by
  unfold fill
  rw [if_pos hvalid]
  rcases htile : m.tiles c with _ | t
  · simp only
    split_ifs with hrequire
    · obtain ⟨row, hrow, seed, hretrieve⟩ := m.tileObstacleRetrieve_spec map order c
      rw [hretrieve]
      refine ⟨_, rfl, Filled.setTile rfl rfl rfl fun o ho => ?_⟩
      rcases List.mem_pair.1 ho with rfl | rfl
      · exact .inr (.inl (map.tileObstacles_block row hrow))
      · exact .inl rfl
    · refine ⟨_, rfl, Filled.setTile rfl rfl rfl fun o ho => .inl (List.mem_singleton.1 ho)⟩
  · refine ⟨_, rfl, Filled.setTile rfl rfl rfl fun o ho => ?_⟩
    rcases List.mem_append.1 ho with hold | hnew
    · exact .inr (.inr ⟨t, htile, hold⟩)
    · exact .inl (List.mem_singleton.1 hnew)

/-- **Filling.** An object whose coordinates are all on the map can be laid there. -/
theorem tilesFill_spec (order : Pairs) {object : Laid} (requireTile : Bool) (m : Making) {coord : Coord}
    (hvalid : ∀ c ∈ footprint object.base coord, map.validCoord c) :
    ∃ m', m.tilesFill map order object requireTile coord = some m' ∧
      Filled object (footprint object.base coord) m m' := by
  unfold tilesFill
  generalize footprint object.base coord = area at hvalid
  induction area generalizing m with
  | nil => exact ⟨m, rfl, rfl, rfl, fun _ _ => rfl, fun c hc => absurd hc List.not_mem_nil⟩
  | cons c area ih =>
    obtain ⟨m₁, hfill, hfilled⟩ := fill_spec order object requireTile m
      (hvalid c List.mem_cons_self)
    obtain ⟨m', hrest, hfilled'⟩ := ih (m := m₁) fun d hd => hvalid d (List.mem_cons_of_mem c hd)
    refine ⟨m', ?_, hfilled.cons hfilled'⟩
    rw [List.foldlM_cons, hfill]
    exact hrest

/-- An object cannot be laid over the edge. -/
theorem validCoord_of_tilesFill {object : Laid} {requireTile : Bool} {m m' : Making} {coord : Coord}
    (hfill : m.tilesFill map order object requireTile coord = some m') :
    ∀ c ∈ footprint object.base coord, map.validCoord c := by
  unfold tilesFill at hfill
  generalize footprint object.base coord = area at hfill
  induction area generalizing m with
  | nil => exact fun c hc => absurd hc List.not_mem_nil
  | cons d area ih =>
    rw [List.foldlM_cons] at hfill
    obtain ⟨m₁, hfirst, hrest⟩ := Option.bind_eq_some_iff.1 hfill
    intro c hc
    rcases List.mem_cons.1 hc with rfl | hmem
    · by_contra hinvalid
      simp [fill, hinvalid] at hfirst
    · exact ih hrest c hmem

/-- What can be passed still can be, when the object that was laid does not stand in the way. -/
theorem Filled.passable {object : Laid} {area : List Coord} {m m' : Making} (hfilled : Filled object area m m')
    (hobject : stands object.base = false) {c : Coord} (hpass : m.passable map c) : m'.passable map c := by
  rw [passable_iff] at hpass ⊢
  refine ⟨hpass.1, fun t ht => ?_⟩
  by_cases hmem : c ∈ area
  · obtain ⟨t', ht', hobjects⟩ := hfilled.objects c hmem
    obtain rfl : t' = t := by
      rw [ht', Option.some.injEq] at ht
      exact ht
    intro o ho
    rcases hobjects o ho with rfl | hnone | ⟨t₀, ht₀, hold⟩
    · exact hobject
    · simp [stands, hnone]
    · exact hpass.2 t₀ ht₀ o hold
  · rw [hfilled.others c hmem] at ht
    exact hpass.2 t ht

/-! ### The ids -/

/-- The assertion of `create_event_object`. -/
theorem createEventObject_new (m : Making) : ∀ event ∈ m.events, event.id ≠ m.eventId + 1 := fun event hmem =>
  (Nat.lt_succ_of_le (m.events_le event hmem)).ne

/-- The assertion of `create_obstacle_object`. -/
theorem createObstacleObject_new (m : Making) : ∀ obstacle ∈ m.obstacles, obstacle.id ≠ m.obstacleId + 1 :=
  fun obstacle hmem => (Nat.lt_succ_of_le (m.obstacles_le obstacle hmem)).ne

end Making

end Slam.Grid
