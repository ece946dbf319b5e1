import Slam.Game.Pack

/-!
# `match.lua`, and how entities enter and leave a match

A match keeps its entities, whose turn it is and which side has won. The functions here call each
other in the middle of their work: `hp_add` calls `to_die`, which reports to `die_entity`, which ends
the turn of the entity if it was its turn, and so the next entity begins its round and runs its
scripts. The pack of the copy is kept aside while its owner fights with a pack of its own.
-/

namespace Slam.Game

/-! ### The state of a match -/

/-- `living_entity_size`. -/
def World.livingEntitySize (w : World) (m : Match) (side : Side) : ℕ :=
  (m.entities.filter fun e => (w.entityAt e).side = side ∧ (w.entityAt e).death = false).length

/-- `Match.done`. -/
def done (side : Side) : Run Unit := do
  let m ← getMatch
  if m.isdone = false then
    assertion (m.sideVictory = none) .done
    modifyMatch fun m => { m with isdone := true, sideVictory := some side }

/-- `Match.init_round_list`. -/
def initRoundList : Run Unit := do
  modifyMatch fun m => { m with
    roundTotal := 0, roundEntityid := none, roundIterator := some 0
    roundListSize := some m.roundList.length }
  assertion (2 ≤ (← getMatch).roundList.length) .initRoundList

/-- The loop of `next_round_entity`. Every turn changes the iterator only, so that the loop does not
end if it has not ended after a turn for each place of the list. -/
def nextRoundLoop : ℕ → Run Unit
  | 0 => throw .timeout
  | n + 1 => do
    let m ← getMatch
    match m.roundIterator, m.roundListSize with
    | some i, some size =>
      let i := if size < i + 1 then 1 else i + 1
      modifyMatch fun m => { m with roundIterator := some i, roundEntityid := m.roundList[i - 1]? }
      match m.roundList[i - 1]? with
      | none => throw (.assertion .nextRoundEntity)
      | some e =>
        if e ∉ m.entities then throw .indexNil
        if ((← get).entityAt e).death then nextRoundLoop n
    | _, _ => throw .arithNil

/-- `Match.next_round_entity`. -/
def nextRoundEntity : Run Unit := do
  let m ← getMatch
  modifyMatch fun m => { m with roundTotal := m.roundTotal + 1 }
  nextRoundLoop m.roundList.length

section Scripts

variable (env : Env) (act : Act → Run Unit) (fuel : ℕ)

/-- The end of `start` and of `round_end`, where `f` names its assertion:
`self.entities[self.round_entityid]:round_begin()`. -/
def beginRound (f : Func) : Run Unit := do
  let w ← get
  let m ← getMatch
  match m.roundEntityid with
  | none => throw (.assertion f)
  | some e =>
    if e ∉ m.entities then throw .indexNil
    record (.roundBegin e (m.roundList.filter fun i => (w.entityAt i).death) m.isdone)
    roundBegin env act e

/-- `Match.round_end`. -/
def matchRoundEnd (e : ℤ) : Run Unit := do
  let m ← getMatch
  assertion (m.isdone = false) .roundEnd
  if m.roundEntityid ≠ some e then return
  if e ∈ m.entities then roundEnd env act fuel e
  let m ← getMatch
  nextRoundEntity
  record (.turnEnd e (m.isdone || m.roundEntityid ≠ some e))
  beginRound env act .roundEnd

/-- `Match.die_entity`. -/
def dieEntity (e : ℤ) : Run Unit := do
  let w ← get
  let m ← getMatch
  assertion (m.isdone = false) .dieEntity
  assertion (e ∈ m.entities) .dieEntity
  assertion ((w.entityAt e).death = true) .dieEntity
  let allies := w.livingEntitySize m .allies
  let enemy := w.livingEntitySize m .enemy
  if allies = 0 ∨ enemy = 0 then done (if allies = 0 then .enemy else .allies)
  else if m.roundEntityid = some e then matchRoundEnd env act fuel e

/-- Ghost: the death of an entity comes too late for its match, or the entity is in no match that
could note it. -/
def World.late (w : World) (e : ℤ) : Bool :=
  match w.sceneMatch with
  | none => false
  | some m => m.isdone || decide (e ∉ m.entities)

/-- `Entity:to_die`. -/
def toDie (e : ℤ) : Run Unit := do
  let w ← get
  if (w.entityAt e).death then return
  modifyEntity e fun x => { x with death := true }
  record (.died e (w.late e))
  match w.scene with
  | none => throw .indexNil
  | some s => if s.sceneMatch.isSome then dieEntity env act fuel e

/-- `Entity:hp_add`. The global `ENTITY_SUFFER_DAMAGE` is nil. -/
def hpAdd (e value : ℤ) : Run Unit := do
  if value = 0 then return
  modifyPack e fun p => { p with hp := min (max (p.hp + value) 0) p.maxhp }
  if value < 0 then breakpoint env act e none none none
  if (← getPack e).hp = 0 then toDie env act fuel e

/-! ### Entering and leaving -/

/-- `Entity:enter_match`. -/
def enterMatch (e : ℤ) : Run Unit := do
  let x := (← get).entityAt e
  assertion (x.backup = none) .enterMatch
  modifyEntity e fun x => { x with backup := some x.pack, pack := { span := .match } }
  delivery env x.pack .match (modifyPack e)
  if (← getPack e).hp = 0 then toDie env act fuel e
  else
    notifyClient env e
    (env.pairs (← getPack e).cards).forM fun c => do
      stackDealInsert e c
      modifyPack e fun p => { p with dealt := p.dealt ++ [c] }

/-- `Entity:exit_match`. -/
def exitMatch (e : ℤ) : Run Unit := do
  let x := (← get).entityAt e
  match x.backup with
  | none => throw (.assertion .exitMatch)
  | some b =>
    delivery env x.pack b.span fun f => modifyEntity e fun x => { x with backup := x.backup.map f }
    modifyEntity e fun x => { x with pack := x.backup.getD x.pack, backup := none }
    notifyClient env e

/-! ### Requests of a match -/

/-- `Match.start`. -/
def start : Run Unit := do
  let w ← get
  let m ← getMatch
  assertion (m.isdone = false) .start
  assertion (m.isstart = false) .start
  assertion (0 < w.livingEntitySize m .allies ∧ 0 < w.livingEntitySize m .enemy) .start
  modifyMatch fun m => { m with isstart := true }
  (env.pairs m.entities).forM fun e => enterMatch env act fuel e
  nextRoundEntity
  beginRound env act .start

/-- `Match.card_play`. -/
def matchCardPlay (e c : ℤ) (pick : Option ℤ) : Run Bool := do
  let m ← getMatch
  assertion (m.isdone = false) .matchCardPlay
  assertion (m.roundEntityid = some e) .matchCardPlay
  if e ∉ m.entities then throw .indexNil
  cardPlay env act e c pick

/-- `Match.card_discard`. -/
def matchCardDiscard (e c : ℤ) : Run Unit := do
  let m ← getMatch
  assertion (m.isdone = false) .matchCardDiscard
  assertion (m.roundEntityid = some e) .matchCardDiscard
  if e ∉ m.entities then throw .indexNil
  cardDiscard env act e c false

/-- `Match.abort`. -/
def abort (e : ℤ) : Run Unit := do
  let w ← get
  let m ← getMatch
  assertion (m.isdone = false) .abort
  assertion (e ∈ m.entities) .abort
  done (w.entityAt e).side.other

/-- `Monster:update`; `ready` says whether the interval since its last card is over. -/
def monsterUpdate (ready : ℤ → Bool) (e : ℤ) : Run Unit := do
  let w ← get
  match w.sceneMatch with
  | none => return
  | some m =>
    if m.isdone then return
    if m.roundEntityid ≠ some e then return
    if (w.entityAt e).death then matchRoundEnd env act fuel e
    else if ready e = false then return
    else if (w.pack e).stackHold.length = 0 then matchRoundEnd env act fuel e
    else
      match ← tableRandom env e (w.pack e).stackHold with
      | none => throw (.assertion .monsterUpdate)
      | some c =>
        assertion (c ∈ (← getPack e).stackHold) .monsterUpdate
        discard <| matchCardPlay env act e c none
        if c ∈ (← getPack e).stackHold then matchCardDiscard env act e c

/-- `Match:update`. -/
def matchUpdate (ready : ℤ → Bool) : Run Unit := do
  let m ← getMatch
  assertion (m.isdone = false) .matchUpdate
  (env.pairs m.entities).forM fun e => do
    if ((← get).entityAt e).base.isMonster then monsterUpdate env act fuel ready e

end Scripts

end Slam.Game
