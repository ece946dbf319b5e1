import Slam.Game.Event
import Slam.Game.Settle
import Slam.Game.Items

/-!
# `scene.lua`, `copy.lua` and `main.lua`: the life of a match

A match is prepared at an event with monsters, started, perhaps aborted, and ended by the update that
finds it done. The entities enter it when it is started, and every one of them has to leave it again when
it is ended: `exit_match` insists on the pack that `enter_match` has put aside. After a defeat the members
leave the scene; a scene without members is closed by the next update, and the copy by the one after it.
-/

namespace Slam.Game

/-- The world with another match, or none. -/
def World.withMatch (w : World) (m : Option Match) : World :=
  { w with scene := w.scene.map fun s => { s with sceneMatch := m } }

/-- The event that has been triggered, if it has monsters and is not accomplished yet. -/
def World.monsterEvent (w : World) : Option Event :=
  (w.scene.bind Scene.triggerEvent).filter fun event => event.category = .monster ∧ event.accomplish = false

/-! ### Preparing -/

/-- `Match.add_member`. -/
def addMember (e : ℤ) : Run Unit := do
  let m ← getMatch
  assertion (m.isdone = false) .addMember
  assertion (e ∉ m.entities) .addMember
  modifyMatch fun m => { m with entities := m.entities ++ [e], roundList := m.roundList ++ [e] }

/-- `Match.add_monster`. -/
def addMonster (env : Env) (depth : ℕ) (side : Side) (baseid : ℤ) : Run Unit := do
  assertion ((← getMatch).isdone = false) .addMonster
  let e ← entityNew env side .copy depth none baseid
  assertion (e ∉ (← getMatch).entities) .addMonster
  modifyMatch fun m => { m with entities := m.entities ++ [e], roundList := m.roundList ++ [e] }

/-- `Match.prepare`. -/
def prepare : Run Unit := do
  let w ← get
  let m ← getMatch
  assertion (m.isdone = false) .prepare
  assertion (m.isstart = false) .prepare
  assertion (0 < w.livingEntitySize m .allies ∧ 0 < w.livingEntitySize m .enemy) .prepare
  initRoundList

/-- The members of the scene that take part, with those in their placeholders. -/
def addMembers (env : Env) (members : List ℤ) : Run Unit :=
  (env.pairs members).forM fun e => do
    ((← getPack e).placeholders.map Prod.snd).forM addMember

/-- The monsters of the event, so many of each base id. -/
def addMonsters (env : Env) (depth : ℕ) (monsters : List (ℤ × ℤ)) : Run Unit :=
  (env.entries monsters).forM fun x => (List.replicate x.2.toNat x.1).forM (addMonster env depth .enemy)

/-- `Scene:prepare_match`. What has been prepared stays when it raises. -/
def prepareMatch (env : Env) (depth : ℕ) : Run Unit := do
  let w ← get
  assertion (w.sceneMatch.isNone = true) .prepareMatch
  match w.scene, w.monsterEvent with
  | some s, some event =>
    modify fun w => w.withMatch (some {})
    addMembers env s.members
    match event.content.bind Content.monster with
    | none => throw (.assertion .prepareMatch)
    | some monsters =>
      addMonsters env depth monsters
      prepare
  | _, _ => return

/-! ### Starting, aborting and ending -/

section Scripts

variable (env : Env) (act : Act → Run Unit) (fuel depth : ℕ)

/-- `Scene:start_match`. -/
def startMatch : Run Unit := do
  let w ← get
  assertion (w.sceneMatch.isSome = true) .startMatch
  if w.monsterEvent.isNone then return
  let m ← getMatch
  assertion (m.isstart = false) .startMatch
  assertion (m.isdone = false) .startMatch
  start env act fuel

/-- `Scene:abort_match`. -/
def abortMatch (e : ℤ) : Run Unit := do
  let w ← get
  assertion (w.sceneMatch.isSome = true) .abortMatch
  if w.monsterEvent.isNone then return
  abort e

/-- What `Match.destructor` does with an entity: it leaves the match, and a monster is destroyed. -/
def dismiss (e : ℤ) : Run Unit := do
  let side := ((← get).entityAt e).side
  exitMatch env e
  if side ≠ .allies then entityDestroy env depth e

/-- `Match.destructor`. It tells the master of the copy who has won. -/
def matchDestructor : Run Unit := do
  let m ← getMatch
  (env.pairs m.entities).forM (dismiss env depth)
  if (← get).entityMaster.isNone then throw .indexNil

/-- `Scene.remove_member`. -/
def sceneRemoveMember (e : ℤ) : Run Unit := do
  match (← get).scene with
  | none => return
  | some s =>
    if e ∉ s.members then return
    modify fun w => { w with scene := w.scene.map fun s => { s with members := s.members.erase e } }
    if s.sceneMatch.isSome then abortMatch e

/-- `Scene:end_match`. After a defeat the members are removed from the scene. -/
def endMatch : Run Unit := do
  let w ← get
  assertion (w.sceneMatch.isSome = true) .endMatch
  if w.monsterEvent.isNone then return
  let m ← getMatch
  assertion (m.isdone = true) .endMatch
  assertion (m.sideVictory.isSome = true) .endMatch
  matchDestructor env depth
  modify fun w => w.withMatch none
  modifyEvent fun event => { event with touch := true }
  if m.sideVictory = some .enemy then
    (env.pairs (((← get).scene.map Scene.members).getD [])).forM sceneRemoveMember

/-! ### Updates -/

/-- `Scene:update`. -/
def sceneUpdate (ready : ℤ → Bool) : Run Unit := do
  match (← get).sceneMatch with
  | none => return
  | some m => if m.isdone then endMatch env depth else matchUpdate env act fuel ready

/-- `Scene.destructor`: the members are removed, and nothing is left. -/
def sceneDestructor : Run Unit := do
  match (← get).scene with
  | none => return
  | some s =>
    (env.pairs s.members).forM sceneRemoveMember
    modify fun w => { w with scene := none }

/-- `Copy.remove_member`. -/
def copyRemoveMember (e : ℤ) : Run Unit := do
  if e ∉ (← get).copyMembers then return
  sceneRemoveMember e
  entityDestroy env depth e
  modify fun w => { w with copyMembers := w.copyMembers.erase e }
  if (← get).entityMaster = some e then modify fun w => { w with entityMaster := none }

/-- `Copy.destructor`. -/
def copyDestructor : Run Unit := do
  (env.pairs (← get).copyMembers).forM (copyRemoveMember env depth)
  sceneDestructor env

/-- `Copy:update`, of a copy that is not about to enter its next layer. A scene without members is closed. -/
def copyUpdate (ready : ℤ → Bool) : Run Unit := do
  match (← get).scene with
  | none => return
  | some s => if s.members = [] then sceneDestructor env else sceneUpdate env act fuel depth ready

/-- `Copy:checkDone`. -/
def World.copyDone (w : World) : Bool := w.copyMembers = [] ∨ w.entityMaster = none ∨ w.scene.isNone

/-! ### The entries -/

/-- The check of `g_copy` that opens every entry. -/
def inCopy (request : Run Unit) : Run Unit := do
  if (← get).copySet then request

/-- The checks that open the entries of a match that goes on. -/
def inMatch (request : Run Unit) : Run Unit := inCopy do
  match (← get).sceneMatch with
  | none => return
  | some m => if m.isdone then return else request

/-- `lua_entry_update`. -/
def luaEntryUpdate (ready : ℤ → Bool) : Run Unit := inCopy do
  if (← get).copyDone then
    copyDestructor env depth
    modify fun w => { w with copySet := false }
  else copyUpdate env act fuel depth ready

/-- `lua_entry_match_prepare`. -/
def luaEntryMatchPrepare : Run Unit := inCopy do
  if (← get).scene.isSome then prepareMatch env depth

/-- `lua_entry_match_start`. -/
def luaEntryMatchStart : Run Unit := inCopy do
  if (← get).scene.isSome then startMatch env act fuel

/-- `lua_entry_match_abort`. -/
def luaEntryMatchAbort (e : ℤ) : Run Unit := inCopy do
  if (← get).scene.isSome then abortMatch e

/-- `lua_entry_card_play`. -/
def luaEntryCardPlay (e c : ℤ) (pick : Option ℤ) : Run Unit :=
  inMatch do discard <| matchCardPlay env act e c pick

/-- `lua_entry_card_discard`. -/
def luaEntryCardDiscard (e c : ℤ) : Run Unit := inMatch (matchCardDiscard env act e c)

/-- `lua_entry_round_end`. -/
def luaEntryRoundEnd (e : ℤ) : Run Unit := inMatch (matchRoundEnd env act fuel e)

/-- `lua_entry_use_item`. -/
def luaEntryUseItem (e i : ℤ) : Run Unit := inCopy do discard <| copyUseItem env act e i

end Scripts

/-- `Entity:card_play_judge`. -/
def cardPlayJudge (env : Env) (e c : ℤ) (pick : Option ℤ) : Run Bool := do
  let w ← get
  if (w.entityAt e).death then return false
  assertion (c ∈ (w.pack e).stackHold) .cardPlayJudge
  let base := (w.cardAt c).base
  if base.enablePlay = false then return false
  if base.requireCareer ≠ 0 ∧ base.requireCareer ≠ (w.entityAt e).base.career then return false
  if (w.pack e).mp < base.costMp then return false
  match pick with
  | none => return false
  | some p => return p ∈ (← cardGetTargets env e c pick)

/-- `Entity:card_discard_judge`. -/
def cardDiscardJudge (e c : ℤ) : Run Bool := do
  let w ← get
  if (w.entityAt e).death then return false
  assertion (c ∈ (w.pack e).stackHold) .cardDiscardJudge
  return (w.cardAt c).base.enableDiscard

/-- The common beginning of `Match.card_play_judge` and `Match.card_discard_judge`; `f` names the assertions. -/
def matchJudge (f : Func) (e : ℤ) (judge : Run Bool) : Run Bool := do
  let m ← getMatch
  assertion (m.isdone = false) f
  assertion (m.roundEntityid = some e) f
  if e ∉ m.entities then throw .indexNil
  judge

/-- `lua_entry_card_play_judge`. -/
def luaEntryCardPlayJudge (env : Env) (e c : ℤ) (pick : Option ℤ) : Run Unit :=
  inMatch do discard <| matchJudge .cardPlayJudge e (cardPlayJudge env e c pick)

/-- `lua_entry_card_discard_judge`. -/
def luaEntryCardDiscardJudge (e c : ℤ) : Run Unit :=
  inMatch do discard <| matchJudge .cardDiscardJudge e (cardDiscardJudge e c)

end Slam.Game
