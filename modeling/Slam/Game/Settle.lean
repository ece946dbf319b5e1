import Slam.Game.Match

/-!
# `CardGetTargets`, `actions.lua` and `matchutil.lua`: what a card does

`MatchUtil.useCard` is the settlement of a card: damage to each target, thorns back to the player,
the effects on the targets and then those on the player. `perform` is what the acts of scripts do;
its argument bounds how deep scripts call each other.
-/

namespace Slam.Game

/-- The special buffs of `stats.lua`. -/
def Stats.str : ℤ := 3001
def Stats.def : ℤ := 3002
def Stats.arm : ℤ := 3004
def Stats.ed : ℤ := 3007
def Stats.thorn : ℤ := 3011
def Stats.unreal : ℤ := 3012
def Stats.fangHuZhuanJing : ℤ := 3021
def Stats.chuxue : ℤ := 3026
def Stats.gongShouJianBei : ℤ := 3031

/-- The buff that lets a card be settled again, and the one that bleeding puts on a target. -/
def doubleBuff : ℤ := 3015
def bleedingBuff : ℤ := 3027

/-! ### Targets -/

/-- The entities of a match on one side. -/
def World.sideMembers (w : World) (m : Match) (side : Side) : List ℤ :=
  m.entities.filter fun e => (w.entityAt e).side = side

/-- The puppets at the placeholders of an entity. -/
def World.placedPuppets (w : World) (e : ℤ) : List ℤ :=
  ((w.pack e).placeholders.map Prod.snd).filter fun t => t ≠ e

/-- A table with the key, if there is one. -/
def keyTable : Option ℤ → List ℤ
  | none => []
  | some k => [k]

/-- The cases `ENEMY_RANDOM` and `ALLIES_RANDOM`: the picked entity if it is on the side, or a random
one. -/
def targetsRandom (env : Env) (e : ℤ) (side : Side) (pick : Option ℤ) : Run (List ℤ) := do
  let m ← getMatch
  match pick with
  | some p => return if p ∈ (← get).sideMembers m side then [p] else []
  | none => return keyTable (← tableRandom env e ((← get).sideMembers m side))

/-- `CardGetTargets`: the keys of the table of targets. `PICK_SINGLE_ALLIES` and `PICK_SINGLE_ENEMY`
are the random cases if nothing is picked, and do the same as these if something is. -/
def cardGetTargets (env : Env) (e c : ℤ) (pick : Option ℤ) : Run (List ℤ) := do
  let w ← get
  let side := (w.entityAt e).side
  match (w.cardAt c).base.requireTarget with
  | .none => return keyTable pick
  | .pickSingleAllies => targetsRandom env e side pick
  | .pickSingleEnemy => targetsRandom env e side.other pick
  | .self => return if pick = none ∨ pick = some e then [e] else []
  | .selfPuppet => return keyTable (← tableRandom env e (w.placedPuppets e).dedup)
  | .alliesAll => return w.sideMembers (← getMatch) side
  | .alliesPuppetAll => return ((w.sideMembers (← getMatch) side).flatMap w.placedPuppets).dedup
  | .enemyAll => return w.sideMembers (← getMatch) side.other
  | .enemyPuppetAll => return ((w.sideMembers (← getMatch) side.other).flatMap w.placedPuppets).dedup
  | .enemyRandom => targetsRandom env e side.other pick
  | .alliesRandom => targetsRandom env e side pick
  | .all => return (← getMatch).entities

/-! ### Buffs as numbers -/

/-- `EntityExt.getBuff`: the buff and its layers. -/
def World.getBuff (w : World) (env : Env) (e baseid : ℤ) : Option ℤ × ℤ :=
  match w.buffFind env e baseid with
  | none => (none, 0)
  | some b => (some b, (w.buffAt b).layers)

/-- `EntityExt.getBuffLayers`. -/
def World.getBuffLayers (w : World) (env : Env) (e baseid : ℤ) : ℤ := (w.getBuff env e baseid).2

/-- `EntityExt.getBuffLayerValue`; a row may have no `layer_value`. -/
def World.getBuffLayerValue (w : World) (env : Env) (e baseid : ℤ) : Option ℚ :=
  match w.getBuff env e baseid with
  | (some b, layers) => if 0 < layers then (w.buffAt b).base.layerValue else some 0
  | (none, _) => some 0

/-- A number that Lua computes with; arithmetic on nil raises. -/
def arith {α : Type} : Option α → Run α
  | none => throw .arithNil
  | some x => return x

/-- `MatchUtil.calcCardAttack`, for an attack that is not negative. -/
def calcCardAttack (env : Env) (player attack : ℤ) : Run ℤ := do
  let w ← get
  let str := w.getBuffLayers env player Stats.str
  let weak ← arith (w.getBuffLayerValue env player Stats.ed)
  return max 0 ⌊((attack + str + (w.pack player).strength : ℤ) : ℚ) * max 0 (min 1 (1 - weak))⌋

section Scripts

variable (env : Env) (act : Act → Run Unit) (fuel : ℕ)

/-! ### Actions -/

/-- `Actions.loseHp`. -/
def loseHp (e amount : ℤ) : Run Unit := do
  if amount ≤ 0 then return
  hpAdd env act fuel e (-amount)

/-- The buff `UNREAL` in `damageOne`: an attack of more than one point does one. -/
def unrealAttack (e attack : ℤ) : Run ℤ := do
  match (← get).getBuff env e Stats.unreal with
  | (some b, count) =>
    if 1 ≤ count ∧ 1 < attack then
      modifyLayers env act b (-1)
      return 1
    else return attack
  | (none, _) => return attack

/-- An attack in `damageOne` that does not get through the armor. -/
def wearArmor (e attack : ℤ) : Option ℤ → Run Unit
  | none => pure ()
  | some b => do
    layersAdd b (-attack)
    if ((← get).buffAt b).layers = 0 then buffRemove env act e b

/-- An attack in `damageOne` that gets through the armor. -/
def breakArmor (e : ℤ) : Option ℤ → Run Unit
  | none => pure ()
  | some b => buffRemove env act e b

/-- `Actions.damageOne`: the damage, nil if there was nothing to do. -/
def damageOne (e attack : ℤ) (damageType : CardDamageType) : Run (Option ℤ) := do
  let w ← get
  if attack ≤ 0 then return none
  if (w.entityAt e).death then return none
  let ed ← arith (w.getBuffLayerValue env e Stats.ed)
  let attack ← unrealAttack env act e ⌊(attack : ℚ) * (1 + ed)⌋
  if damageType = .physical then
    let w ← get
    let arm := w.getBuff env e Stats.arm
    let damage := max (attack - arm.2) 0
    if damage = 0 then
      wearArmor env act e attack arm.1
      return some 0
    else
      breakArmor env act e arm.1
      loseHp env act fuel e damage
      return some damage
  else
    loseHp env act fuel e attack
    return some attack

/-- `Actions.addBuff`. -/
def addBuff (e baseid amount : ℤ) : Run Unit := do
  assertion (0 < amount) .addBuff
  buffAdd env act e baseid amount

/-- `Actions.addARMBuffByCard`. -/
def addARMBuffByCard (e amount : ℤ) : Run Unit := do
  if amount ≤ 0 then return
  let w ← get
  let defence := w.getBuffLayers env e Stats.def + (w.pack e).armor
  let layers := w.getBuffLayers env e Stats.fangHuZhuanJing
  let value ← arith (w.getBuffLayerValue env e Stats.fangHuZhuanJing)
  addBuff env act e Stats.arm ⌊max 0 ((amount : ℚ) + defence * (1 + layers * value))⌋

/-- `Actions.addARMBuff`. It looks up the buff `Stats.dunci`, which is nil, and compares it. -/
def addARMBuff (amount : ℤ) : Run Unit := do
  if amount ≤ 0 then return
  throw .arithNil

/-- `EntityExt.scaleARMBuff`. -/
def scaleARMBuff (e : ℤ) (scale : ℚ) : Run Unit := do
  if scale ≤ 0 then return
  match (← get).getBuff env e Stats.arm with
  | (none, _) => return
  | (some b, amount) =>
    let newAmount := ⌊(amount : ℚ) * scale⌋
    if 0 < newAmount then buffAdd env act e Stats.arm (newAmount - amount)
    else buffRemove env act e b

/-! ### Settlement -/

/-- `match.entities[id]`. -/
def matchEntity (id : ℤ) : Run (Option ℤ) := do
  if id ∈ (← getMatch).entities then return some id else return none

/-- The buff `GongShouJianBei` of the player in `cardSettleDamage`: damage gives armor. -/
def gainArmor (player damage : ℤ) : Run Unit := do
  if 0 < damage then
    let layers := (← get).getBuffLayers env player Stats.gongShouJianBei
    if 0 < layers then addARMBuff (layers * damage)

/-- The buff `THORN` of the target in `cardSettleDamage`: the player is hurt. -/
def sufferThorn (player target : ℤ) : Run Unit := do
  match (← get).getBuff env target Stats.thorn with
  | (none, _) => return
  | (some b, thorn) =>
    if 0 < thorn then
      loseHp env act fuel player thorn
      modifyLayers env act b (-1)

/-- What `cardSettleDamage` does to one target; one that is not in the match is passed over. -/
def settleDamageOne (player attack : ℤ) (damageType : CardDamageType) (id : ℤ) : Run Unit := do
  match ← matchEntity id with
  | none => return
  | some target =>
    let damage ← damageOne env act fuel target attack damageType
    gainArmor env player (damage.getD 0)
    sufferThorn env act fuel player target

/-- `cardSettleDamage`. -/
def cardSettleDamage (player : ℤ) (targets : List ℤ) (base : CardBase) : Run Unit := do
  let attack ← calcCardAttack env player base.damageValue
  (List.range base.settleTimes.toNat).forM fun _ =>
    (env.pairs targets).forM fun id => settleDamageOne env act fuel player attack base.damageType id

/-- The row of a card as it is now. -/
def cardBase (c : ℤ) : Run CardBase := return ((← get).cardAt c).base

/-- What `cardSettleTargetEffect` does to one target. -/
def settleTargetOne (c target : ℤ) : Run Unit := do
  hpAdd env act fuel target (← cardBase c).effectHp
  mpAdd target (← cardBase c).effectMp
  strengthAdd target (← cardBase c).effectStrength
  armorAdd target (← cardBase c).effectArmor
  shieldAdd target (← cardBase c).effectShield
  ((← cardBase c).effectBuff.getD []).forM fun (baseid, layers) =>
    if baseid = Stats.arm then addARMBuffByCard env act target layers
    else buffAdd env act target baseid layers

/-- `cardSettleTargetEffect`: it stops at a target that is not in the match. -/
def cardSettleTargetEffect (c : ℤ) : List ℤ → Run Unit
  | [] => pure ()
  | id :: ids => do
    match ← matchEntity id with
    | none => pure ()
    | some target =>
      settleTargetOne env act fuel c target
      cardSettleTargetEffect c ids

/-- `cardSettleSelfEffect`. It asks whether the global `who`, which is nil, may draw. -/
def cardSettleSelfEffect (player c : ℤ) : Run Unit := do
  let w ← get
  if (w.entityAt player).death then return
  let base := (w.cardAt c).base
  cardDrawFromStackdeal env player base.drawStackdeal
  cardDrawFromStackdiscard env player base.drawStackdiscard
  cardDrawFromStackexhaust env player base.drawStackexhaust
  if base.shuffleStackdiscard then shuffleStackdiscard env player
  if base.shuffleStackexhaust then shuffleStackexhaust env player

/-- The buff `CHUXUE` of the player in `useCard`: a card that attacks makes its targets bleed. -/
def bleedTargets (player : ℤ) (targets : List ℤ) : Run Unit := do
  let chuxue := (← get).getBuffLayers env player Stats.chuxue
  if 0 < chuxue then
    (env.pairs targets).forM fun id => do
      match ← matchEntity id with
      | none => throw .indexNil
      | some target => buffAdd env act target bleedingBuff chuxue

/-- Whether `useCard` settles damage. -/
def CardBase.damages (base : CardBase) : Bool :=
  base.damageType ≠ .none ∧ 0 < base.damageValue ∧ 0 < base.settleTimes

/-- One settlement of the card in `useCard`. -/
def settleOnce (player c : ℤ) (targets : List ℤ) : Run Unit := do
  let base ← cardBase c
  if base.damages then cardSettleDamage env act fuel player targets base
  if (← cardBase c).category = .aggressive then bleedTargets env act player targets
  cardSettleTargetEffect env act fuel c (env.pairs targets)
  cardSettleSelfEffect env player c

/-- `MatchUtil.useCard`. At its end the double buff is removed by its base id. -/
def useCard (player c : ℤ) (pick : Option ℤ) : Run Unit := do
  let targets ← cardGetTargets env player c pick
  let w ← get
  match w.buffFind env player doubleBuff with
  | none => settleOnce env act fuel player c targets
  | some b =>
    if (w.cardAt c).base.category = .aggressive then
      (List.range (1 + (w.buffAt b).layers).toNat).forM fun _ =>
        settleOnce env act fuel player c targets
      buffRemove env act player doubleBuff
    else settleOnce env act fuel player c targets

end Scripts

/-! ### Acts of scripts -/

/-- One act of a script, where `act` does the acts of the scripts it calls. -/
def performWith (env : Env) (act : Act → Run Unit) (fuel : ℕ) : Act → Run Unit
  | .hpAdd e value => hpAdd env act fuel e value
  | .maxhpAdd e value => maxhpAdd e value
  | .mpAdd e value => mpAdd e value
  | .strengthAdd e value => strengthAdd e value
  | .armorAdd e value => armorAdd e value
  | .shieldAdd e value => shieldAdd e value
  | .addGold e value => addGold e value
  | .buffAdd e baseid layers => buffAdd env act e baseid layers
  | .buffRemove e b => buffRemove env act e b
  | .modifyLayers b layers => modifyLayers env act b layers
  | .cardDeal e => cardDeal env act e
  | .drawFromStackdeal e number => cardDrawFromStackdeal env e number
  | .drawFromStackdiscard e number => cardDrawFromStackdiscard env e number
  | .drawFromStackexhaust e number => cardDrawFromStackexhaust env e number
  | .shuffleStackdiscard e => shuffleStackdiscard env e
  | .shuffleStackexhaust e => shuffleStackexhaust env e
  | .stackHoldNewone e baseid => stackHoldNewone env e baseid
  | .cardPlay e c pick => discard <| cardPlay env act e c pick
  | .cardDiscard e c passive => cardDiscard env act e c passive
  | .roundEnd e => roundEnd env act fuel e
  | .setField c base => setField c base
  | .addCard e baseid => discard <| addCard env e baseid
  | .addItem e baseid number => addItem env e baseid number
  | .damageOne e attack damageType => discard <| damageOne env act fuel e attack damageType
  | .useCard player c pick => useCard env act fuel player c pick
  | .raise => throw .script

/-- An act of a script; scripts may call each other to the depth of the fuel. -/
def perform (env : Env) : ℕ → Act → Run Unit
  | 0 => fun _ => throw .timeout
  | fuel + 1 => performWith env (perform env fuel) fuel

end Slam.Game
