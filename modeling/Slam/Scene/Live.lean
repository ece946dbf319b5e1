import Slam.Scene.Generator
import Slam.Scene.Move
import Slam.Lib.Raising

/-!
# `copy/scene.lua`: a scene that is played

From now on events are accomplished, and the tiles under them are reset. An event is shared by the tiles it lies on
and by `trigger_event`, so these refer to it by its id. An event that another one leads to is put into `self.events`
but on no tile.

* `LiveScene`, and `opened`: the scene as `generator` leaves it;
* `resetblock`, `accomplishEvent`, `addMember`, `removeMember`, `move`, `moveRequest`, `triggerLinkedEvent`: the functions,
  with what they call;
* `Call`: what can be asked of a scene.
-/

namespace Slam.Grid

open Slam.Astar
open Slam.Game (EventCategory)

/-- What the scene reads of an event's row. -/
structure EventBase extends ObjectBase where
  category : EventCategory
  deriving DecidableEq

/-- What the script of an event answers: the event it leads to, and the categories for which
`take_event_content` gets something out of it. -/
structure EventContent where
  triggerEventBaseid : Option ℤ
  parts : List EventCategory
  deriving DecidableEq

/-- An event of a scene that is played. -/
structure LiveEvent where
  id : ℤ
  baseid : ℤ
  base : EventBase
  coord : Coord
  content : Option EventContent
  trigger : Bool
  touch : Bool
  accomplish : Bool
  deriving DecidableEq

/-- `{objects = {[1]=?, ...}, block = ?}` -/
structure LiveTile where
  objects : List Laid
  block : BlockCategory
  deriving DecidableEq

/-- The tile, with references. -/
def LiveTile.toTile (t : LiveTile) : Tile := ⟨t.objects.map Laid.ref, t.block⟩

/-- A scene that is played. The coordinate of a member is `members[entityid].coord`. -/
structure LiveScene where
  map : MapRow
  copyid : ℤ
  tiles : Coord → Option LiveTile
  events : List LiveEvent
  obstacles : List Obstacle
  members : ℤ → Option Coord
  triggerEvent : Option ℤ
  /-- `self.match ~= nil` -/
  inMatch : Bool
  /-- `self.copy.enter_next_layer` -/
  enterNextLayer : Bool
  /-- The last id that `cc.EventNew` gave. -/
  eventId : ℤ

/-- What an entity has recorded of the copy it is in and of the layer: `record[copy.baseid][copy_layer]`. -/
inductive Recording
  | noRecord
  | noCopy
  | noLayer
  | layer (eventsAccomplish : Option (List ℤ))

/-- An entity, as far as a scene asks. -/
structure Visitor where
  id : ℤ
  copyid : ℤ
  recording : Recording

/-- What a scene takes from elsewhere. -/
structure Outside where
  /-- `cc.LookupTable("Event", event_baseid)`; none is asserted not to be, as is a row without a script. -/
  event : ℤ → Option EventBase
  /-- `event.script_func`, for an entity and the base id of an event; none if it raises or answers nil. -/
  script : ℤ → ℤ → Option EventContent
  /-- Whether `Match.abort` returns. -/
  abort : ℤ → Bool

/-- The functions that assert something. -/
inductive SceneFunc
  | resetblock | addMember | removeMember | accomplishEvent | takeEventContent | dispatchEvent | moveRequest | move
  | createEventObject | triggerLinkedEvent
  deriving DecidableEq

/-- Why a function raises. -/
inductive SceneFault
  /-- An assertion of the function fails. -/
  | asserted (func : SceneFunc)
  /-- Something else: a nil is indexed or written down, or a function outside raises. -/
  | raised
  deriving DecidableEq

/-- A program over the scene. -/
abbrev Play := EStateM SceneFault LiveScene

namespace LiveScene

variable (s : LiveScene)

/-- `self.events[id]` -/
def eventFind (id : ℤ) : Option LiveEvent := s.events.find? fun event => event.id == id

/-- The event of this id is changed. -/
def updateEvent (id : ℤ) (f : LiveEvent → LiveEvent) : LiveScene :=
  { s with events := s.events.map fun event => if event.id = id then f event else event }

/-- Whether the object is an event that has been accomplished. -/
def accomplished (ref : Ref) : Bool :=
  ref.objectCategory == .event && s.events.any fun event => event.id == ref.id && event.accomplish

/-- The block of an object, as `resetblock` sees it. -/
def effective (object : Laid) : BlockCategory :=
  if s.accomplished object.ref ∧ object.base.block = .dynamic then .none else object.base.block

/-- The loop of `resetblock`: the highest block. -/
def highest (objects : List Laid) : BlockCategory :=
  objects.foldl (fun block object => if (s.effective object).value > block.value then s.effective object else block) .none

/-- `moveable(coord)` -/
def moveable (coord : Coord) : Bool :=
  s.map.validCoord coord &&
    match s.tiles coord with
    | none => false
    | some t => t.block == .none

/-- `tiles_entry_coord()`, none if there is no such event. -/
def tilesEntryCoord (order : Pairs) : Option Coord :=
  ((order.visit s.events).find? fun event => event.base.category == .entry).map LiveEvent.coord

/-- The scene, as far as moving goes. -/
def toScene : Scene where
  width := s.map.width
  height := s.map.height
  tiles coord := (s.tiles coord).map LiveTile.toTile
  objects ref :=
    match ref.objectCategory with
    | .event => (s.eventFind ref.id).map fun event => ⟨event.base.toObjectBase, event.coord, event.accomplish⟩
    | .obstacle =>
      (s.obstacles.find? fun obstacle => obstacle.id == ref.id).map fun obstacle => ⟨obstacle.row.base, obstacle.coord, false⟩
  members := s.members
  triggerEvent := s.triggerEvent.map fun id => ⟨.event, id⟩

end LiveScene

namespace Play

variable (outside : Outside) (order : Pairs)

/-- `assert` -/
def assertion (func : SceneFunc) (p : Prop) [Decidable p] : Play Unit := if p then pure () else throw (.asserted func)

/-- `if p then x end` -/
def onlyIf (p : Prop) [Decidable p] (x : Play Unit) : Play Unit := if p then x else pure ()

/-- `self.tiles[coord.y][coord.x]`, which is asserted to be there. -/
def tileAt (func : SceneFunc) (coord : Coord) : Play LiveTile := do
  match (← get).tiles coord with
  | none => throw (.asserted func)
  | some t => return t

/-- The event of this id. -/
def eventAt (id : ℤ) : Play LiveEvent := do
  match (← get).eventFind id with
  | none => throw .raised
  | some event => return event

/-- `resetblock(coord)` -/
def resetblock (coord : Coord) : Play Unit := do
  assertion .resetblock ((← get).map.validCoord coord)
  let t ← tileAt .resetblock coord
  modify fun s => { s with tiles := Function.update s.tiles coord (some { t with block := s.highest t.objects }) }

/-- `accomplish_event(event)` -/
def accomplishEvent (id : ℤ) : Play Unit := do
  let event ← eventAt id
  assertion .accomplishEvent (event.accomplish = false)
  modify fun s => s.updateEvent id fun event => { event with accomplish := true }
  (footprint event.base.toObjectBase event.coord).forM resetblock

/-- `do_accomplish_events(events_accomplish)` -/
def doAccomplishEvents : Option (List ℤ) → Play Unit
  | none => return ()
  | some eventsAccomplish => do
    (order.visit (← get).events).forM fun event => onlyIf (event.baseid ∈ eventsAccomplish) do
      modify fun s => s.updateEvent event.id fun event => { event with trigger := true, touch := true }
      accomplishEvent event.id

/-- `Entity:enter_scene` -/
def enterScene (entity : Visitor) : Play Unit :=
  match entity.recording with
  | .noRecord => return ()
  | .noCopy => throw .raised
  | .noLayer => return ()
  | .layer eventsAccomplish => doAccomplishEvents order eventsAccomplish

/-- `add_member(entity)`. A member that is added again is moved before that is noticed. -/
def addMember (entity : Visitor) : Play Unit := do
  assertion .addMember (entity.copyid = (← get).copyid)
  match (← get).tilesEntryCoord order with
  | none => throw .raised
  | some coord =>
    modify fun s => { s with members := Function.update s.members entity.id ((s.members entity.id).map fun _ => coord) }
    assertion .addMember ((← get).moveable coord)
    assertion .addMember ((← get).members entity.id = none)
    modify fun s => { s with members := Function.update s.members entity.id (some coord) }
    enterScene order entity

/-- `abort_match(entityid)`, in a match. -/
def abortMatch (entityid : ℤ) : Play Unit := do
  match (← get).triggerEvent.bind (← get).eventFind with
  | none => return ()
  | some event =>
    onlyIf (event.base.category = .monster ∧ event.accomplish = false ∧ outside.abort entityid = false) (throw .raised)

/-- `remove_member(entity)` -/
def removeMember (entity : Visitor) : Play Unit := do
  assertion .removeMember (entity.copyid = (← get).copyid)
  onlyIf ((← get).members entity.id ≠ none) do
    modify fun s => { s with members := Function.update s.members entity.id none }
    onlyIf (← get).inMatch (abortMatch outside entity.id)

/-- `event.content`, for which the script is asked the first time. -/
def contentOf (entityid : ℤ) (event : LiveEvent) : Play EventContent :=
  match event.content with
  | some content => return content
  | none =>
    match outside.script entityid event.baseid with
    | none => throw .raised
    | some content => do
      modify fun s => s.updateEvent event.id fun event => { event with content := some content }
      return content

/-- `take_event_content(entityid, event)`. The content goes to the client, which is not modelled. -/
def takeEventContent (entityid id : ℤ) : Play Unit := do
  let event ← eventAt id
  assertion .takeEventContent (event.accomplish = false)
  let content ← contentOf outside entityid event
  match event.base.category with
  | .entry | .exit => return ()
  | category => assertion .takeEventContent (category ∈ content.parts)

/-- `dispatch_event(entityid, event, is_update)`. Only the category `NONE` is not handled. -/
def dispatchEvent (entityid id : ℤ) (isUpdate : Bool) : Play Bool := do
  let event ← eventAt id
  assertion .dispatchEvent (event.accomplish = false)
  if event.base.category = .none then return false
  else do
    modify fun s => s.updateEvent id fun event => { event with trigger := true }
    takeEventContent outside entityid id
    onlyIf (event.base.category = .exit) (modify fun s => { s with enterNextLayer := true })
    onlyIf (isUpdate = false ∧ event.base.endtype = some .trigger) (accomplishEvent id)
    return true

/-- The end of `move_request`, when no event is triggered. -/
def followRoad (s : LiveScene) (t : LiveTile) (src dest : Coord) : Play Bool :=
  match s.toScene.adjustDest t.toTile src dest with
  | none => throw .raised
  | some none => return false
  | some (some dest) =>
    match s.toScene.roadsReply src dest with
    | none => throw .raised
    | some .refused => return false
    | some _ => return true

/-- `move_request(entityid, destx, desty)` -/
def moveRequest (entityid : ℤ) (dest : Coord) : Play Bool := do
  match (← get).members entityid with
  | none => return false
  | some src =>
    if !(← get).map.validCoord src || !(← get).moveable src then return false
    else if !(← get).map.validCoord dest then return false
    else do
      let t ← tileAt .moveRequest dest
      let event := (← get).toScene.checkEventTrigger t.toTile src
      modify fun s => { s with triggerEvent := event.map Ref.id }
      match event with
      | some event => dispatchEvent outside entityid event.id false
      | none => followRoad (← get) t src dest

/-- `move(entityid, x, y)`. The message for a destination that is not valid formats two variables that do not
exist. -/
def move (entityid : ℤ) (dest : Coord) : Play Bool := do
  match (← get).members entityid with
  | none => return false
  | some src => do
    assertion .move ((← get).moveable src)
    if !(← get).map.validCoord dest then throw .raised
    else do
      let t ← tileAt .move dest
      if t.block ≠ .none then return false
      else do
        modify fun s => { s with members := Function.update s.members entityid (some dest) }
        return true

/-- `create_event_object(event_baseid, coord)`: the id of the event. -/
def createEventObject (baseid : ℤ) (coord : Coord) : Play ℤ := do
  modify fun s => { s with eventId := s.eventId + 1 }
  match outside.event baseid with
  | none => throw .raised
  | some base => do
    let id := (← get).eventId
    assertion .createEventObject ((← get).eventFind id = none)
    modify fun s => { s with events := s.events ++ [⟨id, baseid, base, coord, none, false, false, false⟩] }
    return id

/-- The end of `trigger_linked_event`: the event that is linked is created and triggered. -/
def linkedEvent (entityid : ℤ) (event : LiveEvent) : Play Bool :=
  if event.accomplish = false then return false
  else
    match event.content with
    | none => throw (.asserted .triggerLinkedEvent)
    | some content =>
      match content.triggerEventBaseid with
      | none => return false
      | some baseid => do
        let linked ← createEventObject outside baseid event.coord
        modify fun s => { s with triggerEvent := some linked }
        dispatchEvent outside entityid linked false

/-- `trigger_linked_event(entityid, sceneid)` -/
def triggerLinkedEvent (entityid : ℤ) : Play Bool := do
  match (← get).members entityid, (← get).triggerEvent with
  | some _, some id => do
    let event ← eventAt id
    onlyIf (event.accomplish = false ∧ event.touch ∧ event.base.endtype = some .reward) (accomplishEvent id)
    linkedEvent outside entityid (← eventAt id)
  | _, _ => return false

end Play

/-- What can be asked of a scene. `others` stands for the functions that sell, reward and tell, and for those of the
match: all they do to the scene is to change what is known of the event that is triggered. -/
inductive Call
  | addMember (entity : Visitor)
  | removeMember (entity : Visitor)
  | move (entityid : ℤ) (dest : Coord)
  | moveRequest (entityid : ℤ) (dest : Coord)
  | accomplishEvent (id : ℤ)
  | triggerLinkedEvent (entityid : ℤ)
  | others (content : Option EventContent) (trigger touch inMatch : Bool)

/-- What the scene does then. -/
def Call.run (outside : Outside) (order : Pairs) : Call → Play Unit
  | .addMember entity => Play.addMember order entity
  | .removeMember entity => Play.removeMember outside entity
  | .move entityid dest => discard (Play.move entityid dest)
  | .moveRequest entityid dest => discard (Play.moveRequest outside entityid dest)
  | .accomplishEvent id => Play.accomplishEvent id
  | .triggerLinkedEvent entityid => discard (Play.triggerLinkedEvent outside entityid)
  | .others content trigger touch inMatch => modify fun s =>
    match s.triggerEvent with
    | none => { s with inMatch }
    | some id => { s.updateEvent id fun event => { event with content, trigger, touch } with inMatch }

namespace Making

variable (m : Making)

/-- An event of a scene that `generator` has made. -/
def liveEvent (baseid : ℕ → ℤ) (event : Event) : Option LiveEvent :=
  event.coord.map fun coord =>
    ⟨event.id, baseid event.id, ⟨event.row.base, event.row.category⟩, coord, none, false, false, false⟩

/-- The scene when `generator` has returned, with these events. -/
def openedWith (map : MapRow) (copyid : ℤ) (events : List LiveEvent) : LiveScene where
  map := map
  copyid := copyid
  tiles coord := (m.tiles coord).map fun t => ⟨t.objects, t.block⟩
  events := events
  obstacles := m.obstacles
  members _ := none
  triggerEvent := none
  inMatch := false
  enterNextLayer := false
  eventId := m.eventId

/-- The scene when `generator` has returned, for the base ids of its events; none if an event has no coordinate. -/
def opened (map : MapRow) (copyid : ℤ) (baseid : ℕ → ℤ) : Option LiveScene :=
  (m.events.mapM (liveEvent baseid)).map (m.openedWith map copyid)

end Making

end Slam.Grid
