import Slam.Scene.Link

/-!
# `copy/scene_creator.lua`: `generator`

The events are laid, then the obstacles, and the events are linked. If that works the rest of the map is filled with
tiles, otherwise everything is made anew, with smaller obstacles left out. None stands for an error raised.

* `obstacleSTICKGenerator`, `obstacleBLOCKGenerator`, `paddingTile`, `generator`: the functions;
* `Generated`: the passes by which a scene was made, and `generated_of_generator`;
* `Edits`, `Paving`: what the passes do, step by step.
-/

namespace Slam.Grid

open Slam.Astar Slam.Random
open Slam.Game (EventCategory)

namespace Making

/-- An entry of `STICK_obstacles`. -/
structure ObstacleSpec where
  row : ObjectRow
  coord : Option Coord

/-- What a row of the table `Map` asks for. -/
structure SceneRow extends MapRow where
  stickEvents : List EventSpec
  stickObstacles : List ObstacleSpec
  obstacles : List (ObjectRow × ℕ)

variable (map : MapRow) (order : Pairs)

/-- `self:tiles_fill(self:create_obstacle_object(obstacle_baseid, coord))` -/
def layObstacle (m : Making) (row : ObjectRow) (coord : Coord) : Option Making :=
  let obstacle : Obstacle := ⟨m.obstacleId + 1, row, coord⟩
  (m.createObstacleObject row coord).tilesFill map order obstacle.laid row.requireTile coord

/-- One of the coordinates at which there is room, nil if there is none. -/
def randomGrid (m : Making) (rect : ObjectBase) : Option Coord × Making :=
  let t := numbered (m.tilesAvailableGrid map rect)
  if tableSize t > 0 then
    let (found, seed) := tableRandom (order.visit t) (tableSize t) NewRandom m.seed
    (found.map Prod.snd, { m with seed })
  else (none, m)

/-- The end of the loops over the obstacles: the obstacle is laid if it has a coordinate. -/
def layAt (row : ObjectRow) : Option Coord × Making → Option Making
  | (some coord, m) => m.layObstacle map order row coord
  | (none, m) => some m

/-- The body of the loop of `tiles_obstacle_STICK_generator` -/
def stickObstacle (m : Making) (t : ObstacleSpec) : Option Making :=
  match t.coord with
  | some coord => layAt map order t.row (some coord, m)
  | none => layAt map order t.row (m.randomGrid map order t.row.base)

/-- `tiles_obstacle_STICK_generator()` -/
def obstacleSTICKGenerator (stickObstacles : List ObstacleSpec) (m : Making) : Option Making :=
  (order.visit stickObstacles).foldlM (stickObstacle map order) m

/-- The loop `while number > 0` -/
def blockObstacles (row : ObjectRow) : ℕ → Making → Option Making
  | 0, m => some m
  | number + 1, m => do
    let m ← layAt map order row (m.randomGrid map order row.base)
    blockObstacles row number m

/-- The body of the loop of `tiles_obstacle_BLOCK_generator` -/
def blockObstacle (blocksize : ℕ) (m : Making) (t : ObjectRow × ℕ) : Option Making :=
  if t.1.base.width ≥ blocksize ∨ t.1.base.height ≥ blocksize then blockObstacles map order t.1 t.2 m else some m

/-- `tiles_obstacle_BLOCK_generator(blocksize)` -/
def obstacleBLOCKGenerator (obstacles : List (ObjectRow × ℕ)) (blocksize : ℕ) (m : Making) : Option Making :=
  if blocksize > 0 then (order.visit obstacles).foldlM (blockObstacle map order blocksize) m else none

/-- `tiles_obstacle_padding_tile()`. A coordinate is treated as one of a road is, and all are on the map. -/
def paddingTile (m : Making) : Option Making := (grid map).foldlM (pave map order) m

/-- `FLAG_generate_try_times` -/
def flagGenerateTryTimes : ℕ := 10

/-- `FLAG_prior_obstacle_size` -/
def flagPriorObstacleSize : ℕ := 2

/-- The loop of `generator`. -/
def tryGenerate (row : SceneRow) (eventsBase : List EventSpec) : ℕ → ℕ → Making → Option (Making × Bool)
  | 0, _, m => some (m, false)
  | tryTimes + 1, size, m => do
    let m ← m.tilesInit.tilesEventGenerator row.toMapRow order row.stickEvents eventsBase
    let m ← m.obstacleSTICKGenerator row.toMapRow order row.stickObstacles
    let m ← m.obstacleBLOCKGenerator row.toMapRow order row.obstacles size
    match ← m.tilesLinkEvents row.toMapRow order with
    | (m, some _) =>
      let m ← m.paddingTile row.toMapRow order
      return (m, true)
    | (m, none) => tryGenerate row eventsBase tryTimes (size + 1) m

/-- `generator()`: the scene and the result. -/
def generator (row : SceneRow) (eventsBase : List EventSpec) (m : Making) : Option (Making × Bool) :=
  tryGenerate order row eventsBase flagGenerateTryTimes flagPriorObstacleSize m

/-! ### The passes -/

/-- The passes by which a scene was made. -/
structure Generated (row : SceneRow) (eventsBase : List EventSpec) (m' : Making) where
  start : Making
  laid : Making
  stuck : Making
  blocked : Making
  linked : Making
  road : List Coord
  size : ℕ
  laid_eq : start.tilesInit.tilesEventGenerator row.toMapRow order row.stickEvents eventsBase = some laid
  stuck_eq : laid.obstacleSTICKGenerator row.toMapRow order row.stickObstacles = some stuck
  blocked_eq : stuck.obstacleBLOCKGenerator row.toMapRow order row.obstacles size = some blocked
  linked_eq : blocked.tilesLinkEvents row.toMapRow order = some (linked, some road)
  padded_eq : linked.paddingTile row.toMapRow order = some m'

variable {map order}

theorem generated_of_tryGenerate {row : SceneRow} {eventsBase : List EventSpec} {tryTimes size : ℕ} {m m' : Making}
    (h : tryGenerate order row eventsBase tryTimes size m = some (m', true)) :
    Nonempty (Generated order row eventsBase m') := by
  induction tryTimes generalizing size m with
  | zero => simp [tryGenerate] at h
  | succ tryTimes ih =>
    unfold tryGenerate at h
    obtain ⟨laid, hlaid, h⟩ := Option.bind_eq_some_iff.1 h
    obtain ⟨stuck, hstuck, h⟩ := Option.bind_eq_some_iff.1 h
    obtain ⟨blocked, hblocked, h⟩ := Option.bind_eq_some_iff.1 h
    obtain ⟨⟨linked, road⟩, hlinked, h⟩ := Option.bind_eq_some_iff.1 h
    cases road with
    | none => exact ih h
    | some road =>
      obtain ⟨padded, hpadded, h⟩ := Option.bind_eq_some_iff.1 h
      obtain rfl : padded = m' := congrArg Prod.fst (Option.some.inj h)
      exact ⟨⟨m, laid, stuck, blocked, linked, road, size, hlaid, hstuck, hblocked, hlinked, hpadded⟩⟩

/-- A scene that `generator` returns true for was made by all passes. -/
theorem generated_of_generator {row : SceneRow} {eventsBase : List EventSpec} {m m' : Making}
    (h : generator order row eventsBase m = some (m', true)) : Nonempty (Generated order row eventsBase m') :=
  generated_of_tryGenerate h

/-! ### What the passes do -/

/-- The object is one of the scene, and an event lies on this coordinate by its own. -/
def Recorded (m : Making) (object : Laid) (c : Coord) : Prop :=
  (∃ event ∈ m.events, object = event.laid ∧ ∃ corner ∈ event.coord, c ∈ footprint event.row.base corner) ∨
    ∃ obstacle ∈ m.obstacles, object = obstacle.laid

/-- The objects on a tile, none where there is no tile. -/
def objectsAt (m : Making) (c : Coord) : List Laid :=
  match m.tiles c with
  | none => []
  | some t => t.objects

/-- A step of a pass: the seed goes on, an obstacle is created, or an object of the scene is laid on a tile of the map. -/
inductive Edit (map : MapRow) (m : Making) : Making → Prop
  | seed (seed : ℤ) : Edit map m { m with seed }
  | obstacle (row : ObjectRow) (coord : Coord) : Edit map m (m.createObstacleObject row coord)
  | lay (c : Coord) (object : Laid) (hvalid : map.validCoord c) (hrecorded : m.Recorded object c) :
      Edit map m (m.setTile c (m.objectsAt c ++ [object]))

/-- Some steps. -/
def Edits (map : MapRow) : Making → Making → Prop := Relation.ReflTransGen (Edit map)

/-- A step of the first pass, in which events are created and get their coordinates. -/
inductive EventEdit (map : MapRow) (m : Making) : Making → Prop
  | edit {m' : Making} (h : Edit map m m') : EventEdit map m m'
  | event (row : EventRow) (coord : Option Coord) : EventEdit map m (m.createEventObject row coord)
  | coord (id : ℕ) (corner : Coord) (hnew : ∀ event ∈ m.events, event.id = id → event.coord = none) :
      EventEdit map m (m.setCoord id corner)

/-- Some steps of the first pass. -/
def EventEdits (map : MapRow) : Making → Making → Prop := Relation.ReflTransGen (EventEdit map)

theorem Edits.eventEdits {m m' : Making} (h : Edits map m m') : EventEdits map m m' :=
  Relation.ReflTransGen.mono (fun _ _ => EventEdit.edit) _ _ h

/-- A property that a loop keeps. -/
theorem foldlM_keeps {α β : Type} {P : β → Prop} {f : β → α → Option β} {l : List α}
    (hkeeps : ∀ a ∈ l, ∀ b b', P b → f b a = some b' → P b') {b b' : β} (hb : P b) (hfold : l.foldlM f b = some b') :
    P b' := by
  induction l generalizing b with
  | nil =>
    obtain rfl : b = b' := Option.some.inj hfold
    exact hb
  | cons a l ih =>
    rw [List.foldlM_cons] at hfold
    obtain ⟨b₁, hfirst, hrest⟩ := Option.bind_eq_some_iff.1 hfold
    exact ih (fun a' ha' => hkeeps a' (List.mem_cons_of_mem a ha')) (hkeeps a List.mem_cons_self b b₁ hb hfirst) hrest

theorem Edit.recorded {m m' : Making} (h : Edit map m m') {object : Laid} {c : Coord} (hobject : m.Recorded object c) :
    m'.Recorded object c := by
  cases h with
  | seed | lay => exact hobject
  | obstacle row coord =>
    refine hobject.imp_right ?_
    rintro ⟨obstacle, hmem, hrest⟩
    exact ⟨obstacle, List.mem_append_left _ hmem, hrest⟩

theorem Edits.recorded {m m' : Making} (h : Edits map m m') {object : Laid} {c : Coord}
    (hobject : m.Recorded object c) : m'.Recorded object c := by
  induction h with
  | refl => exact hobject
  | tail _ hedit ih => exact hedit.recorded ih

theorem EventEdit.recorded {m m' : Making} (h : EventEdit map m m') {object : Laid} {c : Coord}
    (hobject : m.Recorded object c) : m'.Recorded object c := by
  cases h with
  | edit h => exact h.recorded hobject
  | event row coord =>
    refine hobject.imp_left ?_
    rintro ⟨event, hmem, hrest⟩
    exact ⟨event, List.mem_append_left _ hmem, hrest⟩
  | coord id corner hnew =>
    refine hobject.imp_left ?_
    rintro ⟨event, hmem, hlaid, old, hold, hc⟩
    refine ⟨event, mem_setCoord_of_ne hmem fun hid => ?_, hlaid, old, hold, hc⟩
    rw [hnew event hmem hid] at hold
    cases hold

/-- No pass before the links touches the roads. -/
theorem EventEdits.roads {m m' : Making} (h : EventEdits map m m') : m'.roads = m.roads := by
  induction h with
  | refl => rfl
  | tail _ hedit ih =>
    refine Eq.trans ?_ ih
    cases hedit with
    | edit hedit => cases hedit <;> rfl
    | event | coord => rfl

theorem Edits.events {m m' : Making} (h : Edits map m m') : m'.events = m.events := by
  induction h with
  | refl => rfl
  | tail _ hedit ih =>
    refine Eq.trans ?_ ih
    cases hedit <;> rfl

theorem objectsAt_setTile (m : Making) (c : Coord) (objects : List Laid) : (m.setTile c objects).objectsAt c = objects := by
  simp [objectsAt, setTile, MadeTile.reset]

theorem setTile_setTile (m : Making) (c : Coord) (objects objects' : List Laid) :
    (m.setTile c objects).setTile c objects' = m.setTile c objects' := by
  simp [setTile]

/-- Laying an object on one coordinate. -/
theorem fill_edits {object : Laid} {requireTile : Bool} {m m' : Making} {c : Coord}
    (hfill : fill map order object requireTile m c = some m') (hobject : m.Recorded object c) : Edits map m m' := by
  unfold fill at hfill
  by_cases hvalid : map.validCoord c
  · rw [if_pos hvalid] at hfill
    have hlay : Edit map m _ := .lay c object hvalid hobject
    unfold objectsAt at hlay
    cases htile : m.tiles c with
    | none =>
      simp only [htile] at hfill hlay
      split_ifs at hfill with hrequire
      · -- the tile obstacle is created and laid, and then the object
        obtain ⟨row, -, seed, hretrieve⟩ := m.tileObstacleRetrieve_spec map order c
        rw [hretrieve] at hfill
        obtain rfl := Option.some.inj hfill
        let m₁ : Making := { m with seed }
        let tile : Obstacle := ⟨m.obstacleId + 1, row, c⟩
        have hseed : Edit map m m₁ := .seed seed
        have hcreate : Edit map m₁ (m₁.createObstacleObject row c) := .obstacle row c
        have htile' : (m₁.createObstacleObject row c).Recorded tile.laid c :=
          .inr ⟨tile, List.mem_append_right _ (List.mem_singleton_self _), rfl⟩
        have hfirst : Edit map _ _ := .lay c tile.laid hvalid htile'
        have hnone : (m₁.createObstacleObject row c).objectsAt c = [] := by
          unfold objectsAt
          rw [show (m₁.createObstacleObject row c).tiles c = none from htile]
        rw [hnone, List.nil_append] at hfirst
        have hsecond : Edit map _ _ := .lay c object hvalid
          (hfirst.recorded (hcreate.recorded (hseed.recorded hobject)))
        rw [objectsAt_setTile, setTile_setTile] at hsecond
        exact (((Relation.ReflTransGen.single hseed).tail hcreate).tail hfirst).tail hsecond
      · obtain rfl := Option.some.inj hfill
        exact .single hlay
    | some t =>
      simp only [htile] at hfill hlay
      obtain rfl := Option.some.inj hfill
      exact .single hlay
  · rw [if_neg hvalid] at hfill
    cases hfill

/-- Laying an object that covers the coordinates. -/
theorem tilesFill_edits {object : Laid} {requireTile : Bool} {m m' : Making} {coord : Coord}
    (hfill : m.tilesFill map order object requireTile coord = some m')
    (hobject : ∀ c ∈ footprint object.base coord, m.Recorded object c) : Edits map m m' := by
  refine foldlM_keeps (P := Edits map m) (fun c hc m₁ m₂ hedits hfirst => ?_) .refl hfill
  exact hedits.trans (fill_edits hfirst (hedits.recorded (hobject c hc)))

theorem layObstacle_edits {row : ObjectRow} {m m' : Making} {coord : Coord}
    (hlay : m.layObstacle map order row coord = some m') : Edits map m m' := by
  have hrecorded : ∀ c, (m.createObstacleObject row coord).Recorded (⟨m.obstacleId + 1, row, coord⟩ : Obstacle).laid c :=
    fun c => .inr ⟨_, List.mem_append_right _ (List.mem_singleton_self _), rfl⟩
  exact .head (.obstacle row coord) (tilesFill_edits hlay fun c _ => hrecorded c)

/-! ### The passes before the links -/

theorem randomGrid_eq (map : MapRow) (order : Pairs) (m : Making) (rect : ObjectBase) :
    ∃ found seed, m.randomGrid map order rect = (found, { m with seed }) := by
  unfold randomGrid
  dsimp only
  split_ifs
  · exact ⟨_, _, rfl⟩
  · exact ⟨none, m.seed, rfl⟩

theorem layAt_edits {row : ObjectRow} {found : Option Coord} {m m' : Making}
    (hlay : layAt map order row (found, m) = some m') : Edits map m m' := by
  cases found with
  | none =>
    obtain rfl : m = m' := Option.some.inj hlay
    exact .refl
  | some coord => exact layObstacle_edits hlay

theorem layAt_randomGrid_edits {row : ObjectRow} {m m' : Making}
    (hlay : layAt map order row (m.randomGrid map order row.base) = some m') : Edits map m m' := by
  obtain ⟨found, seed, hgrid⟩ := m.randomGrid_eq map order row.base
  rw [hgrid] at hlay
  exact .head (.seed seed) (layAt_edits hlay)

theorem obstacleSTICKGenerator_edits {stickObstacles : List ObstacleSpec} {m m' : Making}
    (hstick : m.obstacleSTICKGenerator map order stickObstacles = some m') : Edits map m m' := by
  refine foldlM_keeps (P := Edits map m) (fun t _ m₁ m₂ hedits hlay => hedits.trans ?_) .refl hstick
  unfold stickObstacle at hlay
  cases hcoord : t.coord with
  | none =>
    rw [hcoord] at hlay
    exact layAt_randomGrid_edits hlay
  | some coord =>
    rw [hcoord] at hlay
    exact layAt_edits hlay

theorem blockObstacles_edits {row : ObjectRow} {number : ℕ} {m m' : Making}
    (hblock : m.blockObstacles map order row number = some m') : Edits map m m' := by
  induction number generalizing m with
  | zero =>
    obtain rfl : m = m' := Option.some.inj hblock
    exact .refl
  | succ number ih =>
    unfold blockObstacles at hblock
    obtain ⟨m₁, hlay, hrest⟩ := Option.bind_eq_some_iff.1 hblock
    exact (layAt_randomGrid_edits hlay).trans (ih hrest)

theorem obstacleBLOCKGenerator_edits {obstacles : List (ObjectRow × ℕ)} {blocksize : ℕ} {m m' : Making}
    (hblock : m.obstacleBLOCKGenerator map order obstacles blocksize = some m') : Edits map m m' := by
  unfold obstacleBLOCKGenerator at hblock
  split_ifs at hblock
  refine foldlM_keeps (P := Edits map m) (fun t _ m₁ m₂ hedits hlay => hedits.trans ?_) .refl hblock
  unfold blockObstacle at hlay
  split_ifs at hlay
  · exact blockObstacles_edits hlay
  · obtain rfl : m₁ = m₂ := Option.some.inj hlay
    exact .refl

/-! ### The events -/

/-- An event that gets its coordinate is recorded on all that it covers. -/
theorem settle_edits {event : Event} {corner : Coord} {m m' : Making} (hmem : event ∈ m.events)
    (hnone : event.coord = none) (hsettle : m.settle map order event corner = some m') : EventEdits map m m' := by
  have hnew : ∀ event' ∈ m.events, event'.id = event.id → event'.coord = none := by
    intro event' hmem' hid
    rw [eq_of_id_eq hmem' hmem hid]
    exact hnone
  have hplaced : { event with coord := some corner } ∈ (m.setCoord event.id corner).events :=
    List.mem_map.2 ⟨event, hmem, if_pos rfl⟩
  have hfilled := tilesFill_edits hsettle fun c hc => .inl ⟨_, hplaced, rfl, corner, rfl, hc⟩
  exact .head (.coord event.id corner hnew) hfilled.eventEdits

theorem placeEvent_edits {event : Event} {distance : ℕ} {m m' : Making} (hmem : event ∈ m.events)
    (hnone : event.coord = none) (hplace : placeEvent map order event distance m = some m') : EventEdits map m m' := by
  induction distance generalizing m with
  | zero =>
    unfold placeEvent at hplace
    rcases m.tryDistance_spec map order event 0 with ⟨corner, seed, htry, -⟩ | ⟨seed, htry, -⟩
    · rw [htry] at hplace
      exact .head (.edit (.seed seed)) (settle_edits hmem hnone hplace)
    · rw [htry] at hplace
      cases hplace
  | succ distance ih =>
    unfold placeEvent at hplace
    rcases m.tryDistance_spec map order event (distance + 1) with ⟨corner, seed, htry, -⟩ | ⟨seed, htry, -⟩
    · rw [htry] at hplace
      exact .head (.edit (.seed seed)) (settle_edits hmem hnone hplace)
    · rw [htry] at hplace
      exact .head (.edit (.seed seed)) (ih (m := { m with seed }) hmem hplace)

theorem foldlM_locateEvent_edits {events : List Event} {m m' : Making} (hpending : Pending events m)
    (hlocate : events.foldlM (locateEvent map order) m = some m') : EventEdits map m m' := by
  induction events generalizing m with
  | nil =>
    obtain rfl : m = m' := Option.some.inj hlocate
    exact .refl
  | cons event events ih =>
    rw [List.foldlM_cons] at hlocate
    obtain ⟨m₁, hfirst, hrest⟩ := Option.bind_eq_some_iff.1 hlocate
    unfold locateEvent at hfirst
    cases hcoord : event.coord with
    | some c =>
      rw [hcoord] at hfirst
      obtain rfl : m = m₁ := Option.some.inj hfirst
      exact ih (hpending.skip hcoord) hrest
    | none =>
      rw [hcoord] at hfirst
      have hmem := hpending.mem event List.mem_cons_self
      have hapart : HasApart map m event := by
        by_contra hapart
        rw [placeEvent_eq_none hapart] at hfirst
        cases hfirst
      obtain ⟨corner, m₂, hplaced, hsettled⟩ := placeEvent_spec order hapart (max flagEventDistance 0).toNat
      obtain rfl : m₂ = m₁ := Option.some.inj (hplaced.symm.trans hfirst)
      exact (placeEvent_edits hmem hcoord hfirst).trans (ih (hpending.settled hsettled) hrest)

theorem fixedEvents_edits {stickEvents eventsBase : List EventSpec} {m m' : Making}
    (hfixed : m.fixedEvents map order stickEvents eventsBase = some m') : EventEdits map m m' := by
  rw [fixedEvents_eq] at hfixed
  obtain ⟨m₁, hgen, hfill⟩ := Option.bind_eq_some_iff.1 hfixed
  have hcreated : EventEdits map m m₁ := by
    refine foldlM_keeps (P := EventEdits map m) (fun t _ m₂ m₃ hedits hgen => ?_) .refl hgen
    unfold eventGenerate at hgen
    split_ifs at hgen
    obtain rfl := Option.some.inj hgen
    exact hedits.tail (.event t.row t.coord)
  refine hcreated.trans (Edits.eventEdits ?_)
  refine foldlM_keeps (P := Edits map m₁) (fun event hmem m₂ m₃ hedits hlay => ?_) .refl hfill
  unfold fillEvent at hlay
  cases hcoord : event.coord with
  | none =>
    rw [hcoord] at hlay
    obtain rfl : m₂ = m₃ := Option.some.inj hlay
    exact hedits
  | some corner =>
    rw [hcoord] at hlay
    have hevent : event ∈ m₁.events := (order.visit_perm m₁.events).mem_iff.1 hmem
    exact hedits.trans (tilesFill_edits hlay fun c hc => hedits.recorded (.inl ⟨event, hevent, rfl, corner, hcoord, hc⟩))

/-- The first pass. All events have their coordinates after it, and their tiles are on the map. -/
theorem tilesEventGenerator_edits {stickEvents eventsBase : List EventSpec} {m m' : Making}
    (hgen : m.tilesInit.tilesEventGenerator map order stickEvents eventsBase = some m') :
    EventEdits map m.tilesInit m' ∧ PlacesAll map (created order stickEvents eventsBase) m' := by
  unfold tilesEventGenerator at hgen
  obtain ⟨m₁, hfixed, hgen⟩ := Option.bind_eq_some_iff.1 hgen
  obtain ⟨m₂, hlocate, hgen⟩ := Option.bind_eq_some_iff.1 hgen
  split_ifs at hgen
  obtain rfl : m₂ = m' := Option.some.inj hgen
  obtain ⟨-, hlocated, hpending⟩ := fixedEvents_spec hfixed
  obtain ⟨hlocated', hcoords⟩ := (foldlM_locateEvent hlocated hpending).2 m₂ hlocate
  exact ⟨(fixedEvents_edits hfixed).trans (foldlM_locateEvent_edits hpending hlocate), ⟨hlocated', hcoords⟩⟩

/-! ### The links and the padding -/

theorem pave_edits {m m' : Making} {coord : Coord} (hpave : m.pave map order coord = some m') : Edits map m m' := by
  unfold pave at hpave
  split_ifs at hpave
  cases htile : m.tiles coord with
  | none =>
    obtain ⟨row, -, seed, hretrieve⟩ := m.tileObstacleRetrieve_spec map order coord
    simp only [htile, hretrieve] at hpave
    exact .head (.seed seed) (layObstacle_edits (m := { m with seed }) hpave)
  | some t =>
    simp only [htile] at hpave
    obtain rfl : m = m' := Option.some.inj hpave
    exact .refl

/-- A link has a start. -/
theorem linkTo_cases {src dest : Coord} {m m' : Making} {road : Option (List Coord)}
    (hlink : m.linkTo map order src dest = some (m', road)) :
    ∃ start, m.shortestDistance map order src dest = some (some start) ∧
      m.linkEvent map order start dest = some (m', road) := by
  unfold linkTo at hlink
  obtain ⟨start, hshort, hlink⟩ := Option.bind_eq_some_iff.1 hlink
  cases start with
  | none => cases hlink
  | some start => exact ⟨start, hshort, hlink⟩

/-- A turn of the loop over the events: the link, and the road is added. -/
theorem linkTurn_cases {l : Linking} {i : ℕ} {event : Event} {r : Linking ⊕ Making}
    (hturn : linkTurn map order l i event = some r) :
    ∃ dest m₁ road, event.coord = some dest ∧ l.making.linkTo map order l.fromCoord dest = some (m₁, road) ∧
      ((road = none ∧ r = .inr m₁) ∨ ∃ coords, road = some coords ∧
        r = .inl ⟨{ m₁ with roads := m₁.roads ++ order.visit coords }, dest, l.toEvents.filter fun entry => entry.1 ≠ i⟩) := by
  unfold linkTurn at hturn
  obtain ⟨dest, hdest, hturn⟩ := Option.bind_eq_some_iff.1 hturn
  obtain ⟨⟨m₁, road⟩, hlink, hturn⟩ := Option.bind_eq_some_iff.1 hturn
  refine ⟨dest, m₁, road, hdest, hlink, ?_⟩
  cases road with
  | none => exact .inl ⟨rfl, (Option.some.inj hturn).symm⟩
  | some coords =>
    simp only at hturn
    split_ifs at hturn
    exact .inr ⟨coords, rfl, (Option.some.inj hturn).symm⟩

/-- What the loop and the link to the exit come to: turns of the loop, and a last link. -/
theorem linkEvents_cases {exit : Coord} {turns : ℕ} {l : Linking} {m' : Making} {road : List Coord}
    (hlinks : linkEvents map order exit turns l = some (m', some road)) :
    ∃ l', Reaches map order l l' ∧ order.visit l'.toEvents = [] ∧
      l'.making.linkTo map order l'.fromCoord exit = some (m', some road) := by
  induction turns generalizing l with
  | zero => cases hlinks
  | succ turns ih =>
    cases hvisit : order.visit l.toEvents with
    | nil =>
      rw [linkEvents_nil hvisit] at hlinks
      exact ⟨l, .refl, hvisit, hlinks⟩
    | cons entry rest =>
      obtain ⟨i, event⟩ := entry
      rw [linkEvents_cons hvisit] at hlinks
      obtain ⟨r, hturn, hlinks⟩ := Option.bind_eq_some_iff.1 hlinks
      cases r with
      | inr m => cases hlinks
      | inl l₁ =>
        obtain ⟨l', hreaches, hrest⟩ := ih hlinks
        exact ⟨l', hreaches.head ((goes_cons hvisit).2 hturn), hrest⟩

/-- What the function asserts, and its loop. -/
theorem tilesLinkEvents_cases {m m' : Making} {road : List Coord}
    (hlink : m.tilesLinkEvents map order = some (m', some road)) :
    ∃ entry exit toEvents, (m.tilesEventFind order .entry).bind Event.coord = some entry ∧
      (m.tilesEventFind order .exit).bind Event.coord = some exit ∧ m.moveable map entry ∧
      m.sortEvents map order entry = some toEvents ∧
      linkEvents map order exit (toEvents.length + 1) ⟨m, entry, toEvents⟩ = some (m', some road) := by
  unfold tilesLinkEvents at hlink
  obtain ⟨entryEvent, hentry, hlink⟩ := Option.bind_eq_some_iff.1 hlink
  obtain ⟨entry, hentryCoord, hlink⟩ := Option.bind_eq_some_iff.1 hlink
  split_ifs at hlink with hmoveable
  · cases hlink
  · obtain ⟨exitEvent, hexit, hlink⟩ := Option.bind_eq_some_iff.1 hlink
    obtain ⟨exit, hexitCoord, hlink⟩ := Option.bind_eq_some_iff.1 hlink
    obtain ⟨toEvents, hsort, hlink⟩ := Option.bind_eq_some_iff.1 hlink
    rw [Bool.not_eq_true', Bool.not_eq_false, Bool.and_eq_true] at hmoveable
    refine ⟨entry, exit, toEvents, ?_, ?_, hmoveable.2, hsort, hlink⟩
    · rw [hentry]
      exact hentryCoord
    · rw [hexit]
      exact hexitCoord

/-- The passes from the links on: coordinates are paved, and there are new roads. -/
def Paving (map : MapRow) (order : Pairs) : Making → Making → Prop :=
  Relation.ReflTransGen fun m m' => (∃ coord, m.pave map order coord = some m') ∨ ∃ roads, m' = { m with roads }

/-- What paving a coordinate keeps. -/
theorem Paving.keeps {P : Making → Prop} (hpave : ∀ m m' coord, P m → m.pave map order coord = some m' → P m')
    (hroads : ∀ m roads, P m → P { m with roads }) {m m' : Making} (h : Paving map order m m') (hm : P m) : P m' := by
  induction h with
  | refl => exact hm
  | tail _ hstep ih =>
    rcases hstep with ⟨coord, hcoord⟩ | ⟨roads, rfl⟩
    · exact hpave _ _ coord ih hcoord
    · exact hroads _ roads ih

theorem foldlM_pave_paving {coords : List Coord} {m m' : Making} (hpave : coords.foldlM (pave map order) m = some m') :
    Paving map order m m' :=
  foldlM_keeps (P := Paving map order m) (fun c _ _ _ hpaving hlay => hpaving.tail (.inl ⟨c, hlay⟩)) .refl hpave

theorem linkTo_paving {src dest : Coord} {m m' : Making} {road : Option (List Coord)}
    (hlink : m.linkTo map order src dest = some (m', road)) : Paving map order m m' := by
  obtain ⟨start, -, hlink⟩ := linkTo_cases hlink
  unfold linkEvent at hlink
  cases hfind : findPath (m.query map start dest) with
  | raised => simp [hfind] at hlink
  | failure errorstring =>
    simp only [hfind] at hlink
    obtain rfl : m = m' := congrArg Prod.fst (Option.some.inj hlink)
    exact .refl
  | roads coords =>
    simp only [hfind] at hlink
    obtain ⟨m₁, hpave, hlink⟩ := Option.bind_eq_some_iff.1 hlink
    obtain rfl : m₁ = m' := congrArg Prod.fst (Option.some.inj hlink)
    exact foldlM_pave_paving hpave

theorem Goes.paving {l l' : Linking} (h : Goes map order l l') : Paving map order l.making l'.making := by
  obtain ⟨i, event, rest, -, hturn⟩ := h
  obtain ⟨dest, m₁, road, -, hlink, ⟨-, hr⟩ | ⟨coords, -, hr⟩⟩ := linkTurn_cases hturn
  · cases hr
  · obtain rfl := Sum.inl.inj hr
    exact (linkTo_paving hlink).tail (.inr ⟨_, rfl⟩)

theorem tilesLinkEvents_paving {m m' : Making} {road : List Coord}
    (hlink : m.tilesLinkEvents map order = some (m', some road)) : Paving map order m m' := by
  obtain ⟨entry, exit, toEvents, -, -, -, -, hlinks⟩ := tilesLinkEvents_cases hlink
  obtain ⟨l', hreaches, -, hlast⟩ := linkEvents_cases hlinks
  have hturns : ∀ l, Reaches map order l l' → Paving map order l.making l'.making := by
    intro l hreaches
    induction hreaches using Relation.ReflTransGen.head_induction_on with
    | refl => exact .refl
    | head hgoes _ ih => exact hgoes.paving.trans ih
  exact (hturns _ hreaches).trans (linkTo_paving hlast)

end Making

end Slam.Grid
