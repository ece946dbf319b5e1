import Slam.Game.Follow.Match

/-!
# The settlement of cards and the acts of scripts follow the track

`perform_follows` closes the circle: the acts of scripts follow the track if the scripts that they call
do, by induction on how deep scripts call each other.
-/

namespace Slam.Game

open Raising Track

variable {env : Env} {adding : Bool} {act : Act → Run Unit} {fuel : ℕ} {α : Type}

theorem quiet_targetsRandom (e : ℤ) (side : Side) (pick : Option ℤ) :
    quietTrack.Follows (targetsRandom env e side pick) := by
  refine quiet_getMatch.bind fun m => ?_
  cases pick with
  | none => exact follows_get.bind fun w => (quiet_tableRandom e _).bind fun k => follows_pure _
  | some p => exact follows_get.bind fun w => follows_pure _

theorem quiet_cardGetTargets (e c : ℤ) (pick : Option ℤ) :
    quietTrack.Follows (cardGetTargets env e c pick) := by
  refine follows_get.bind fun w => ?_
  cases (w.cardAt c).base.requireTarget with
  | none => exact follows_pure _
  | pickSingleAllies => exact quiet_targetsRandom e _ pick
  | pickSingleEnemy => exact quiet_targetsRandom e _ pick
  | self => exact follows_pure _
  | selfPuppet => exact (quiet_tableRandom e _).bind fun k => follows_pure _
  | alliesAll => exact quiet_getMatch.bind fun m => follows_pure _
  | alliesPuppetAll => exact quiet_getMatch.bind fun m => follows_pure _
  | enemyAll => exact quiet_getMatch.bind fun m => follows_pure _
  | enemyPuppetAll => exact quiet_getMatch.bind fun m => follows_pure _
  | enemyRandom => exact quiet_targetsRandom e _ pick
  | alliesRandom => exact quiet_targetsRandom e _ pick
  | all => exact quiet_getMatch.bind fun m => follows_pure _

theorem quiet_arith (x : Option α) : quietTrack.Follows (arith x) := by
  cases x with
  | none => exact quiet_throw trivial
  | some x => exact follows_pure _

theorem quiet_calcCardAttack (player attack : ℤ) : quietTrack.Follows (calcCardAttack env player attack) :=
  follows_get.bind fun _ => (quiet_arith _).bind fun _ => follows_pure _

theorem quiet_matchEntity (id : ℤ) : quietTrack.Follows (matchEntity id) :=
  quiet_getMatch.bind fun _ => Follows.ite (fun _ => follows_pure _) fun _ => follows_pure _

theorem quiet_cardBase (c : ℤ) : quietTrack.Follows (cardBase c) := follows_get.bind fun _ => follows_pure _

theorem quiet_addARMBuff (amount : ℤ) : quietTrack.Follows (addARMBuff amount) :=
  Follows.ite (fun _ => follows_pure _) fun _ => quiet_throw trivial

theorem quiet_gainArmor (player damage : ℤ) : quietTrack.Follows (gainArmor env player damage) :=
  Follows.ite (fun _ => follows_get.bind fun _ => Follows.ite (fun _ => quiet_addARMBuff _) fun _ =>
    follows_pure _) fun _ => follows_pure _

theorem follows_cardSettleSelfEffect (player c : ℤ) :
    (logicTrack adding).Follows (cardSettleSelfEffect env player c) := by
  refine follows_get.bind fun w => Follows.ite (fun _ => follows_pure _) fun _ => ?_
  refine (follows_cardDrawFromStackdeal player _).bind fun _ => ?_
  refine (follows_cardDrawFromStackdiscard player _).bind fun _ => ?_
  refine (follows_cardDrawFromStackexhaust player _).bind fun _ => ?_
  have hexhaust : (logicTrack adding).Follows (if (w.cardAt c).base.shuffleStackexhaust then
      shuffleStackexhaust env player else pure ()) :=
    Follows.ite (fun _ => follows_shuffleStackexhaust player) fun _ => follows_pure _
  refine Follows.ite (fun _ => ?_) fun _ => hexhaust
  exact (follows_shuffleStackdiscard player).bind fun _ => hexhaust

section Scripts

variable (hact : ∀ f call w, ∀ a ∈ env.script f call w, (logicTrack adding).Follows (act a))
include hact

theorem follows_loseHp (e amount : ℤ) : (logicTrack adding).Follows (loseHp env act fuel e amount) :=
  Follows.ite (fun _ => follows_pure _) fun _ => follows_hpAdd hact e _

theorem follows_unrealAttack (e attack : ℤ) : (logicTrack adding).Follows (unrealAttack env act e attack) := by
  refine follows_get.bind fun w => ?_
  split
  · refine Follows.ite (fun _ => ?_) fun _ => follows_pure _
    exact (follows_modifyLayers hact _ _).bind fun _ => follows_pure _
  · exact follows_pure _

theorem follows_wearArmor (e attack : ℤ) (arm : Option ℤ) :
    (logicTrack adding).Follows (wearArmor env act e attack arm) := by
  cases arm with
  | none => exact follows_pure _
  | some b =>
    refine (follows_of_quiet (quiet_layersAdd _ _)).bind fun _ => follows_get.bind fun w => ?_
    exact Follows.ite (fun _ => follows_buffRemove hact _ _) fun _ => follows_pure _

theorem follows_breakArmor (e : ℤ) (arm : Option ℤ) :
    (logicTrack adding).Follows (breakArmor env act e arm) := by
  cases arm with
  | none => exact follows_pure _
  | some b => exact follows_buffRemove hact _ _

theorem follows_damageOne (e attack : ℤ) (damageType : CardDamageType) :
    (logicTrack adding).Follows (damageOne env act fuel e attack damageType) := by
  refine follows_get.bind fun w => Follows.ite (fun _ => follows_pure _) fun _ => ?_
  refine Follows.ite (fun _ => follows_pure _) fun _ => ?_
  refine (follows_of_quiet (quiet_arith _)).bind fun ed => ?_
  refine (follows_unrealAttack hact e _).bind fun attack => ?_
  refine Follows.ite (fun _ => follows_get.bind fun w => ?_) fun _ => ?_
  · refine Follows.ite (fun _ => ?_) fun _ => ?_
    · exact (follows_wearArmor hact e _ _).bind fun _ => follows_pure _
    · refine (follows_breakArmor hact e _).bind fun _ => ?_
      exact (follows_loseHp hact e _).bind fun _ => follows_pure _
  · exact (follows_loseHp hact e _).bind fun _ => follows_pure _

theorem follows_addARMBuffByCard (e amount : ℤ) :
    (logicTrack adding).Follows (addARMBuffByCard env act e amount) := by
  refine Follows.ite (fun _ => follows_pure _) fun _ => follows_get.bind fun w => ?_
  refine (follows_of_quiet (quiet_arith _)).bind fun value => ?_
  exact (follows_of_quiet (quiet_assertion _ rfl)).bind fun _ => follows_buffAdd hact _ _ _

theorem follows_sufferThorn (player target : ℤ) :
    (logicTrack adding).Follows (sufferThorn env act fuel player target) := by
  refine follows_get.bind fun w => ?_
  split
  · exact follows_pure _
  · refine Follows.ite (fun _ => ?_) fun _ => follows_pure _
    exact (follows_loseHp hact _ _).bind fun _ => follows_modifyLayers hact _ _

theorem follows_settleDamageOne (player attack : ℤ) (damageType : CardDamageType) (id : ℤ) :
    (logicTrack adding).Follows (settleDamageOne env act fuel player attack damageType id) := by
  refine (follows_of_quiet (quiet_matchEntity id)).bind fun target => ?_
  cases target with
  | none => exact follows_pure _
  | some target =>
    refine (follows_damageOne hact _ _ _).bind fun damage => ?_
    exact (follows_of_quiet (quiet_gainArmor _ _)).bind fun _ => follows_sufferThorn hact _ _

theorem follows_cardSettleDamage (player : ℤ) (targets : List ℤ) (base : CardBase) :
    (logicTrack adding).Follows (cardSettleDamage env act fuel player targets base) := by
  refine (follows_of_quiet (quiet_calcCardAttack _ _)).bind fun attack => ?_
  refine Follows.forM fun _ _ => Follows.forM fun id _ => ?_
  exact follows_settleDamageOne hact _ _ _ id

theorem follows_settleTargetOne (c target : ℤ) :
    (logicTrack adding).Follows (settleTargetOne env act fuel c target) := by
  have hadd (a : Attribute) (value : ℤ) : (logicTrack adding).Follows (attributeAdd a target value) :=
    follows_of_quiet (quiet_attributeAdd _ _ _)
  have hbase : (logicTrack adding).Follows (cardBase c) := follows_of_quiet (quiet_cardBase c)
  refine hbase.bind fun b => (follows_hpAdd hact _ _).bind fun _ => ?_
  refine hbase.bind fun b => (hadd .mp _).bind fun _ => ?_
  refine hbase.bind fun b => (hadd .strength _).bind fun _ => ?_
  refine hbase.bind fun b => (hadd .armor _).bind fun _ => ?_
  refine hbase.bind fun b => (hadd .shield _).bind fun _ => ?_
  refine hbase.bind fun b => Follows.forM fun x _ => ?_
  exact Follows.ite (fun _ => follows_addARMBuffByCard hact _ _) fun _ => follows_buffAdd hact _ _ _

theorem follows_cardSettleTargetEffect (c : ℤ) (ids : List ℤ) :
    (logicTrack adding).Follows (cardSettleTargetEffect env act fuel c ids) := by
  induction ids with
  | nil => exact follows_pure _
  | cons id ids ih =>
    refine (follows_of_quiet (quiet_matchEntity id)).bind fun target => ?_
    cases target with
    | none => exact follows_pure _
    | some target => exact (follows_settleTargetOne hact c target).bind fun _ => ih

theorem follows_bleedTargets (player : ℤ) (targets : List ℤ) :
    (logicTrack adding).Follows (bleedTargets env act player targets) := by
  refine follows_get.bind fun w => Follows.ite (fun _ => Follows.forM fun id _ => ?_) fun _ => follows_pure _
  refine (follows_of_quiet (quiet_matchEntity id)).bind fun target => ?_
  cases target with
  | none => exact follows_of_quiet (quiet_throw trivial)
  | some target => exact follows_buffAdd hact _ _ _

theorem follows_settleOnce (player c : ℤ) (targets : List ℤ) :
    (logicTrack adding).Follows (settleOnce env act fuel player c targets) := by
  have hend : (logicTrack adding).Follows (do
      cardSettleTargetEffect env act fuel c (env.pairs targets)
      cardSettleSelfEffect env player c) :=
    (follows_cardSettleTargetEffect hact c _).bind fun _ => follows_cardSettleSelfEffect player c
  have hbleed : (logicTrack adding).Follows (do
      if (← cardBase c).category = .aggressive then bleedTargets env act player targets
      cardSettleTargetEffect env act fuel c (env.pairs targets)
      cardSettleSelfEffect env player c) := by
    refine (follows_of_quiet (quiet_cardBase c)).bind fun base => ?_
    exact Follows.ite (fun _ => (follows_bleedTargets hact player targets).bind fun _ => hend) fun _ => hend
  refine (follows_of_quiet (quiet_cardBase c)).bind fun base => ?_
  refine Follows.ite (fun _ => ?_) fun _ => hbleed
  exact (follows_cardSettleDamage hact player targets base).bind fun _ => hbleed

theorem follows_useCard (player c : ℤ) (pick : Option ℤ) :
    (logicTrack adding).Follows (useCard env act fuel player c pick) := by
  refine (follows_of_quiet (quiet_cardGetTargets player c pick)).bind fun targets => ?_
  refine follows_get.bind fun w => ?_
  split
  · exact follows_settleOnce hact player c targets
  · refine Follows.ite (fun _ => ?_) fun _ => follows_settleOnce hact player c targets
    refine (Follows.forM fun _ _ => follows_settleOnce hact player c targets).bind fun _ => ?_
    exact follows_buffRemove hact _ _

/-- An act of a script, if the scripts that it calls follow the track. -/
theorem follows_performWith (a : Act) (ha : adding = true ∨ ∀ e baseid, a ≠ .addCard e baseid) :
    (logicTrack adding).Follows (performWith env act fuel a) := by
  cases a with
  | hpAdd e value => exact follows_hpAdd hact e value
  | maxhpAdd e value => exact follows_of_quiet (quiet_maxhpAdd e value)
  | mpAdd e value => exact follows_of_quiet (quiet_attributeAdd _ e value)
  | strengthAdd e value => exact follows_of_quiet (quiet_attributeAdd _ e value)
  | armorAdd e value => exact follows_of_quiet (quiet_attributeAdd _ e value)
  | shieldAdd e value => exact follows_of_quiet (quiet_attributeAdd _ e value)
  | addGold e value => exact follows_of_quiet (quiet_addGold e value)
  | buffAdd e baseid layers => exact follows_buffAdd hact e baseid layers
  | buffRemove e b => exact follows_buffRemove hact e b
  | modifyLayers b layers => exact follows_modifyLayers hact b layers
  | cardDeal e => exact follows_cardDeal hact e
  | drawFromStackdeal e number => exact follows_cardDrawFromStackdeal e number
  | drawFromStackdiscard e number => exact follows_cardDrawFromStackdiscard e number
  | drawFromStackexhaust e number => exact follows_cardDrawFromStackexhaust e number
  | shuffleStackdiscard e => exact follows_shuffleStackdiscard e
  | shuffleStackexhaust e => exact follows_shuffleStackexhaust e
  | stackHoldNewone e baseid => exact follows_stackHoldNewone e baseid
  | cardPlay e c pick => exact (follows_cardPlay hact e c pick).map _
  | cardDiscard e c passive => exact follows_cardDiscard hact e c passive
  | roundEnd e => exact follows_roundEnd hact e
  | setField c base => exact follows_of_quiet (quiet_setField c base)
  | addCard e baseid =>
    have hadding := ha.resolve_right fun h => h e baseid rfl
    exact (follows_addCard hadding e baseid).map _
  | addItem e baseid number => exact follows_of_quiet (quiet_addItem e baseid number)
  | damageOne e attack damageType => exact (follows_damageOne hact e attack damageType).map _
  | useCard player c pick => exact follows_useCard hact player c pick
  | raise => exact follows_of_quiet (quiet_throw trivial)

end Scripts

/-- No script adds a card to a pack. -/
def Env.AddsNoCard (env : Env) : Prop :=
  ∀ f call w, ∀ a ∈ env.script f call w, ∀ e baseid, a ≠ .addCard e baseid

/-- **The acts of scripts follow the track.** -/
theorem perform_follows (henv : adding = true ∨ env.AddsNoCard) (fuel : ℕ) (a : Act)
    (ha : adding = true ∨ ∀ e baseid, a ≠ .addCard e baseid) :
    (logicTrack adding).Follows (perform env fuel a) := by
  induction fuel generalizing a with
  | zero => exact follows_of_quiet (quiet_throw trivial)
  | succ fuel ih =>
    refine follows_performWith (fun f call w b hb => ih b ?_) a ha
    exact henv.imp_right fun h => h f call w b hb

/-- Scripts follow the track. -/
theorem script_follows (henv : adding = true ∨ env.AddsNoCard) (fuel : ℕ) :
    ∀ f call w, ∀ a ∈ env.script f call w, (logicTrack adding).Follows (perform env fuel a) :=
  fun f call w a ha => perform_follows henv fuel a (henv.imp_right fun h => h f call w a ha)

/-- Scripts follow the track on which they may add cards. -/
theorem script_follows_true (env : Env) (fuel : ℕ) :
    ∀ f call w, ∀ a ∈ env.script f call w, (logicTrack true).Follows (perform env fuel a) :=
  script_follows (.inl rfl) fuel

end Slam.Game
