import Slam.Game.Aside

/-!
# Tracks of everything a script may do

The functions that set hit points, deaths and buffs aside follow `asideTrack`. Five steps are left, of
which all others consist: hit points are written, an entity is marked as dead, layers are added, a buff is
added and a buff is removed. A track that is wider than `asideTrack` and that these five follow is followed
by every act of a script (`Supports.perform`).
-/

namespace Slam.Game

open Raising Track

/-- The track is followed by the steps of which the acts of scripts consist, where `act` does the acts of
the scripts that they call. -/
structure Supports (T : Track Fault World) (env : Env) (act : Act → Run Unit) : Prop where
  aside : ∀ {α : Type} {x : Run α}, asideTrack.Follows x → T.Follows x
  hp : ∀ e value, T.Follows (modifyPack e fun p => { p with hp := min (max (p.hp + value) 0) p.maxhp })
  death : ∀ e, T.Follows (modifyEntity e fun x => { x with death := true })
  layersAdd : ∀ b value, T.Follows (layersAdd b value)
  buffAdd : ∀ e baseid layers, T.Follows (buffAdd env act e baseid layers)
  buffRemove : ∀ e b, T.Follows (buffRemove env act e b)
  script : ∀ f call w, ∀ a ∈ env.script f call w, T.Follows (act a)

theorem follows_callScript_of {T : Track Fault World} {env : Env} {act : Act → Run Unit}
    (haside : ∀ {α : Type} {x : Run α}, asideTrack.Follows x → T.Follows x)
    (hscript : ∀ f call w, ∀ a ∈ env.script f call w, T.Follows (act a)) (f : Option ScriptFunc) (call : ScriptCall) :
    T.Follows (callScript env act f call) := by
  cases f with
  | none => exact haside (aside_throw _)
  | some f => exact follows_get.bind fun w => Follows.forM fun a ha => hscript f call w a ha

/-- A breakpoint follows every track that scripts follow. -/
theorem follows_breakpoint_of {T : Track Fault World} {env : Env} {act : Act → Run Unit}
    (haside : ∀ {α : Type} {x : Run α}, asideTrack.Follows x → T.Follows x)
    (hscript : ∀ f call w, ∀ a ∈ env.script f call w, T.Follows (act a)) (e : ℤ) (card pick : Option ℤ)
    (bp : Option BreakPoint) : T.Follows (breakpoint env act e card pick bp) := by
  have hcall (f : Option ScriptFunc) (call : ScriptCall) : T.Follows (callScript env act f call) :=
    follows_callScript_of haside hscript f call
  have hbuffs (pick : Option ℤ) : T.Follows (do
      (env.pairs (← getPack e).buffs).forM fun b => do
        let w ← get
        let base := (w.buffAt b).base
        if b ∈ (w.pack e).buffs ∧ base.enableScript then
          callScript env act base.scriptFunc
            { entity := e, card := card, buff := some b, pick := pick, bp := bp }) := by
    refine (haside (aside_getPack e)).bind fun p => Follows.forM fun b _ => follows_get.bind fun w => ?_
    exact Follows.ite (fun _ => hcall _ _) fun _ => follows_pure _
  refine (haside (aside_pickEntity pick)).bind fun pick => ?_
  cases card with
  | none => exact hbuffs pick
  | some c => exact follows_get.bind fun w => Follows.ite (fun _ => (hcall _ _).bind fun _ => hbuffs pick) fun _ => hbuffs pick

section Rounds

variable {T : Track Fault World} {env : Env} {act : Act → Run Unit}
  (haside : ∀ {α : Type} {x : Run α}, asideTrack.Follows x → T.Follows x)
  (hbreak : ∀ e bp, T.Follows (breakpoint env act e none none bp))
include haside hbreak

/-- The begin of a round follows every track that its breakpoints follow. -/
theorem follows_cardDeal_of (e : ℤ) : T.Follows (cardDeal env act e) := by
  refine follows_get.bind fun w => Follows.ite (fun _ => follows_pure _) fun _ => ?_
  refine (hbreak _ _).bind fun _ => (haside (aside_getPack e)).bind fun p => ?_
  refine (haside (aside_assertion _ _)).bind fun _ => (haside (aside_dealCards e _)).bind fun _ => ?_
  exact hbreak _ _

theorem follows_roundBegin_of (e : ℤ) : T.Follows (roundBegin env act e) := by
  refine follows_get.bind fun w => Follows.ite (fun _ => follows_pure _) fun _ => ?_
  refine (hbreak _ _).bind fun _ => follows_get.bind fun w => (haside (aside_assertion _ _)).bind fun _ => ?_
  have hrest : T.Follows (do
      breakpoint env act e none none (some .roundBeginZ)
      cardDeal env act e) :=
    (hbreak _ _).bind fun _ => follows_cardDeal_of haside hbreak e
  exact Follows.ite (fun _ => (haside (aside_attributeAdd .mp _ _)).bind fun _ => hrest) fun _ => hrest

theorem follows_beginRound_of (f : Func) : T.Follows (beginRound env act f) := by
  refine follows_get.bind fun w => (haside aside_getMatch).bind fun m => ?_
  split
  · exact haside (aside_throw _)
  · refine Follows.ite (fun _ => haside (aside_throw _)) fun _ => ?_
    exact (haside (aside_record _)).bind fun _ => follows_roundBegin_of haside hbreak _

/-- The end of `Match.round_end`, where the turn is handed over. -/
theorem follows_handOver_of (e : ℤ) : T.Follows (do
    let m ← getMatch
    nextRoundEntity
    record (.turnEnd e (m.isdone || m.roundEntityid ≠ some e))
    beginRound env act .roundEnd) := by
  refine (haside aside_getMatch).bind fun m => (haside aside_nextRoundEntity).bind fun _ => ?_
  exact (haside (aside_record _)).bind fun _ => follows_beginRound_of haside hbreak _

end Rounds

namespace Supports

variable {T : Track Fault World} {env : Env} {act : Act → Run Unit} {fuel : ℕ}

theorem breakpoint (h : Supports T env act) (e : ℤ) (card pick : Option ℤ) (bp : Option BreakPoint) :
    T.Follows (breakpoint env act e card pick bp) :=
  follows_breakpoint_of h.aside h.script e card pick bp

theorem modifyLayers (h : Supports T env act) (b layers : ℤ) : T.Follows (modifyLayers env act b layers) := by
  refine (h.layersAdd b layers).bind fun _ => follows_get.bind fun w => ?_
  exact Follows.ite (fun _ => h.buffRemove _ _) fun _ => follows_pure _

/-! ### Rounds -/

theorem cardDeal (h : Supports T env act) (e : ℤ) : T.Follows (cardDeal env act e) :=
  follows_cardDeal_of h.aside (fun e bp => h.breakpoint e none none bp) e

theorem whileLocked (h : Supports T env act) (e : ℤ) {x : Run Unit} (hx : T.Follows x) : T.Follows (whileLocked e x) := by
  have hghost {f : List ℤ → List ℤ} : T.Follows (modify fun w => { w with locked := f w.locked } : Run PUnit) :=
    h.aside (aside_modify (by intro; rfl) (by intro; rfl) (by intro; rfl) (by intro; rfl))
  exact (@hghost fun l => e :: l).bind fun _ => hx.bind fun _ => @hghost List.tail

theorem settleCard (h : Supports T env act) (e c : ℤ) {x : Run Unit} (hx : T.Follows x) : T.Follows (settleCard e c x) :=
  (h.aside (aside_leaveHand e c)).bind fun _ => hx.bind fun _ => h.aside (aside_fileCard e c)

theorem cardPlay (h : Supports T env act) (e c : ℤ) (pick : Option ℤ) : T.Follows (cardPlay env act e c pick) := by
  refine follows_get.bind fun w => Follows.ite (fun _ => follows_pure _) fun _ => ?_
  refine Follows.ite (fun _ => follows_pure _) fun _ => Follows.ite (fun _ => follows_pure _) fun _ => ?_
  refine (h.whileLocked e (h.breakpoint _ _ _ _)).bind fun _ => follows_get.bind fun u => ?_
  refine Follows.ite (fun _ => follows_pure _) fun _ => Follows.ite (fun _ => follows_pure _) fun _ => ?_
  have hsettle : T.Follows (do
      Game.settleCard e c (Game.breakpoint env act e (some c) pick (some .cardPlayZ))
      return true) :=
    (h.settleCard e c (h.breakpoint _ _ _ _)).bind fun _ => follows_pure _
  refine (h.aside (aside_attributeAdd .mp _ _)).bind fun _ => ?_
  exact Follows.ite (fun _ => (h.aside (aside_attributeAdd .mp _ _)).bind fun _ => hsettle) fun _ => hsettle

theorem cardDiscard (h : Supports T env act) (e c : ℤ) (passive : Bool) : T.Follows (cardDiscard env act e c passive) := by
  refine follows_get.bind fun w => Follows.ite (fun _ => follows_pure _) fun _ => ?_
  refine Follows.ite (fun _ => follows_pure _) fun _ => Follows.ite (fun _ => follows_pure _) fun _ => ?_
  exact (h.whileLocked e (h.breakpoint _ _ _ _)).bind fun _ => h.settleCard e c (h.breakpoint _ _ _ _)

theorem discardExtra (h : Supports T env act) (e : ℤ) (fuel : ℕ) : T.Follows (discardExtra env act e fuel) := by
  induction fuel with
  | zero => exact h.aside (aside_throw _)
  | succ fuel ih =>
    refine (h.aside (aside_getPack e)).bind fun p => Follows.ite (fun _ => ?_) fun _ => follows_pure _
    split
    · exact h.aside (aside_throw _)
    · exact (h.cardDiscard e _ _).bind fun _ => ih

theorem roundEnd (h : Supports T env act) (e : ℤ) : T.Follows (roundEnd env act fuel e) := by
  refine follows_get.bind fun w => Follows.ite (fun _ => follows_pure _) fun _ => ?_
  exact (h.breakpoint _ _ _ _).bind fun _ => (h.discardExtra e fuel).bind fun _ => h.breakpoint _ _ _ _

/-! ### Deaths -/

theorem matchRoundEnd (h : Supports T env act) (e : ℤ) : T.Follows (matchRoundEnd env act fuel e) := by
  refine (h.aside aside_getMatch).bind fun m => (h.aside (aside_assertion _ _)).bind fun _ => ?_
  refine Follows.ite (fun _ => follows_pure _) fun _ => ?_
  have hnext := follows_handOver_of h.aside (fun e bp => h.breakpoint e none none bp) e
  exact Follows.ite (fun _ => (h.roundEnd e).bind fun _ => hnext) fun _ => hnext

theorem dieEntity (h : Supports T env act) (e : ℤ) : T.Follows (dieEntity env act fuel e) := by
  refine follows_get.bind fun w => (h.aside aside_getMatch).bind fun m => ?_
  refine (h.aside (aside_assertion _ _)).bind fun _ => (h.aside (aside_assertion _ _)).bind fun _ => ?_
  refine (h.aside (aside_assertion _ _)).bind fun _ => Follows.ite (fun _ => h.aside (aside_done _)) fun _ => ?_
  exact Follows.ite (fun _ => h.matchRoundEnd e) fun _ => follows_pure _

theorem toDie (h : Supports T env act) (e : ℤ) : T.Follows (toDie env act fuel e) := by
  refine follows_get.bind fun w => Follows.ite (fun _ => follows_pure _) fun _ => ?_
  refine (h.death e).bind fun _ => (h.aside (aside_record _)).bind fun _ => ?_
  split
  · exact h.aside (aside_throw _)
  · exact Follows.ite (fun _ => h.dieEntity e) fun _ => follows_pure _

theorem hpAdd (h : Supports T env act) (e value : ℤ) : T.Follows (hpAdd env act fuel e value) := by
  refine Follows.ite (fun _ => follows_pure _) fun _ => (h.hp e value).bind fun _ => ?_
  have hrest : T.Follows (do if (← getPack e).hp = 0 then Game.toDie env act fuel e) :=
    (h.aside (aside_getPack e)).bind fun p => Follows.ite (fun _ => h.toDie e) fun _ => follows_pure _
  exact Follows.ite (fun _ => (h.breakpoint _ _ _ _).bind fun _ => hrest) fun _ => hrest

/-! ### Settlement -/

theorem loseHp (h : Supports T env act) (e amount : ℤ) : T.Follows (loseHp env act fuel e amount) :=
  Follows.ite (fun _ => follows_pure _) fun _ => h.hpAdd e _

theorem unrealAttack (h : Supports T env act) (e attack : ℤ) : T.Follows (unrealAttack env act e attack) := by
  refine follows_get.bind fun w => ?_
  split
  · exact Follows.ite (fun _ => (h.modifyLayers _ _).bind fun _ => follows_pure _) fun _ => follows_pure _
  · exact follows_pure _

theorem wearArmor (h : Supports T env act) (e attack : ℤ) (b : Option ℤ) : T.Follows (wearArmor env act e attack b) := by
  cases b with
  | none => exact follows_pure _
  | some b =>
    refine (h.layersAdd _ _).bind fun _ => follows_get.bind fun w => ?_
    exact Follows.ite (fun _ => h.buffRemove _ _) fun _ => follows_pure _

theorem breakArmor (h : Supports T env act) (e : ℤ) (b : Option ℤ) : T.Follows (breakArmor env act e b) := by
  cases b with
  | none => exact follows_pure _
  | some b => exact h.buffRemove e b

theorem damageOne (h : Supports T env act) (e attack : ℤ) (damageType : CardDamageType) :
    T.Follows (damageOne env act fuel e attack damageType) := by
  refine follows_get.bind fun w => Follows.ite (fun _ => follows_pure _) fun _ => ?_
  refine Follows.ite (fun _ => follows_pure _) fun _ => (h.aside (aside_arith _)).bind fun ed => ?_
  refine (h.unrealAttack e _).bind fun attack => Follows.ite (fun _ => follows_get.bind fun w => ?_) fun _ => ?_
  · refine Follows.ite (fun _ => (h.wearArmor e _ _).bind fun _ => follows_pure _) fun _ => ?_
    exact (h.breakArmor e _).bind fun _ => (h.loseHp e _).bind fun _ => follows_pure _
  · exact (h.loseHp e _).bind fun _ => follows_pure _

theorem addARMBuffByCard (h : Supports T env act) (e amount : ℤ) : T.Follows (addARMBuffByCard env act e amount) := by
  refine Follows.ite (fun _ => follows_pure _) fun _ => follows_get.bind fun w => (h.aside (aside_arith _)).bind fun value => ?_
  exact (h.aside (aside_assertion _ _)).bind fun _ => h.buffAdd _ _ _

theorem sufferThorn (h : Supports T env act) (player target : ℤ) : T.Follows (sufferThorn env act fuel player target) := by
  refine follows_get.bind fun w => ?_
  split
  · exact follows_pure _
  · exact Follows.ite (fun _ => (h.loseHp _ _).bind fun _ => h.modifyLayers _ _) fun _ => follows_pure _

theorem settleDamageOne (h : Supports T env act) (player attack : ℤ) (damageType : CardDamageType) (id : ℤ) :
    T.Follows (settleDamageOne env act fuel player attack damageType id) := by
  refine (h.aside (aside_matchEntity id)).bind fun target => ?_
  cases target with
  | none => exact follows_pure _
  | some target =>
    refine (h.damageOne _ _ _).bind fun damage => ?_
    exact (h.aside (aside_gainArmor _ _)).bind fun _ => h.sufferThorn _ _

theorem cardSettleDamage (h : Supports T env act) (player : ℤ) (targets : List ℤ) (base : CardBase) :
    T.Follows (cardSettleDamage env act fuel player targets base) := by
  refine (h.aside (aside_calcCardAttack _ _)).bind fun attack => Follows.forM fun _ _ => Follows.forM fun id _ => ?_
  exact h.settleDamageOne _ _ _ id

theorem settleTargetOne (h : Supports T env act) (c target : ℤ) : T.Follows (settleTargetOne env act fuel c target) := by
  have hbase : T.Follows (cardBase c) := follows_get.bind fun _ => follows_pure _
  have hadd (a : Attribute) (value : ℤ) : T.Follows (attributeAdd a target value) := h.aside (aside_attributeAdd _ _ _)
  refine hbase.bind fun _ => (h.hpAdd _ _).bind fun _ => hbase.bind fun _ => (hadd .mp _).bind fun _ => ?_
  refine hbase.bind fun _ => (hadd .strength _).bind fun _ => hbase.bind fun _ => (hadd .armor _).bind fun _ => ?_
  refine hbase.bind fun _ => (hadd .shield _).bind fun _ => hbase.bind fun _ => Follows.forM fun x _ => ?_
  exact Follows.ite (fun _ => h.addARMBuffByCard _ _) fun _ => h.buffAdd _ _ _

theorem cardSettleTargetEffect (h : Supports T env act) (c : ℤ) (targets : List ℤ) :
    T.Follows (cardSettleTargetEffect env act fuel c targets) := by
  induction targets with
  | nil => exact follows_pure _
  | cons id targets ih =>
    refine (h.aside (aside_matchEntity id)).bind fun target => ?_
    cases target with
    | none => exact follows_pure _
    | some target => exact (h.settleTargetOne c target).bind fun _ => ih

theorem bleedTargets (h : Supports T env act) (player : ℤ) (targets : List ℤ) :
    T.Follows (bleedTargets env act player targets) := by
  refine follows_get.bind fun w => Follows.ite (fun _ => Follows.forM fun id _ => ?_) fun _ => follows_pure _
  refine (h.aside (aside_matchEntity id)).bind fun target => ?_
  cases target with
  | none => exact h.aside (aside_throw _)
  | some target => exact h.buffAdd _ _ _

theorem settleOnce (h : Supports T env act) (player c : ℤ) (targets : List ℤ) :
    T.Follows (settleOnce env act fuel player c targets) := by
  have hbase : T.Follows (cardBase c) := follows_get.bind fun _ => follows_pure _
  have hend : T.Follows (do
      Game.cardSettleTargetEffect env act fuel c (env.pairs targets)
      cardSettleSelfEffect env player c) :=
    (h.cardSettleTargetEffect c _).bind fun _ => h.aside (aside_cardSettleSelfEffect _ _)
  have hbleed : T.Follows (do
      if (← cardBase c).category = .aggressive then Game.bleedTargets env act player targets
      Game.cardSettleTargetEffect env act fuel c (env.pairs targets)
      cardSettleSelfEffect env player c) :=
    hbase.bind fun _ => Follows.ite (fun _ => (h.bleedTargets player targets).bind fun _ => hend) fun _ => hend
  exact hbase.bind fun base => Follows.ite
    (fun _ => (h.cardSettleDamage player targets base).bind fun _ => hbleed) fun _ => hbleed

theorem useCard (h : Supports T env act) (player c : ℤ) (pick : Option ℤ) : T.Follows (useCard env act fuel player c pick) := by
  refine (h.aside (aside_cardGetTargets _ _ _)).bind fun targets => follows_get.bind fun w => ?_
  split
  · exact h.settleOnce player c targets
  · refine Follows.ite (fun _ => ?_) fun _ => h.settleOnce player c targets
    exact (Follows.forM fun _ _ => h.settleOnce player c targets).bind fun _ => h.buffRemove _ _

/-- An act of a script, if the scripts that it calls follow the track. -/
theorem performWith (h : Supports T env act) (a : Act) : T.Follows (performWith env act fuel a) := by
  cases a with
  | hpAdd e value => exact h.hpAdd e value
  | maxhpAdd e value => exact h.aside (aside_maxhpAdd e value)
  | mpAdd e value => exact h.aside (aside_attributeAdd .mp e value)
  | strengthAdd e value => exact h.aside (aside_attributeAdd .strength e value)
  | armorAdd e value => exact h.aside (aside_attributeAdd .armor e value)
  | shieldAdd e value => exact h.aside (aside_attributeAdd .shield e value)
  | addGold e value => exact h.aside (aside_addGold e value)
  | buffAdd e baseid layers => exact h.buffAdd e baseid layers
  | buffRemove e b => exact h.buffRemove e b
  | modifyLayers b layers => exact h.modifyLayers b layers
  | cardDeal e => exact h.cardDeal e
  | drawFromStackdeal e number => exact h.aside (aside_cardDraw .deal e _)
  | drawFromStackdiscard e number => exact h.aside (aside_cardDraw .discard e _)
  | drawFromStackexhaust e number => exact h.aside (aside_cardDraw .exhaust e _)
  | shuffleStackdiscard e => exact h.aside (aside_shuffleStackdiscard e)
  | shuffleStackexhaust e => exact h.aside (aside_shuffleStackexhaust e)
  | stackHoldNewone e baseid => exact h.aside (aside_stackHoldNewone e baseid)
  | cardPlay e c pick => exact (h.cardPlay e c pick).map _
  | cardDiscard e c passive => exact h.cardDiscard e c passive
  | roundEnd e => exact h.roundEnd e
  | setField c base => exact h.aside (aside_setField c base)
  | addCard e baseid => exact (h.aside (aside_addCard e baseid)).map _
  | addItem e baseid number => exact h.aside (aside_addItem e baseid number)
  | damageOne e attack damageType => exact (h.damageOne e attack damageType).map _
  | useCard player c pick => exact h.useCard player c pick
  | raise => exact h.aside (aside_throw _)

end Supports

/-- **Every act of a script follows a track** that is wider than `asideTrack` and that the five other steps
follow, however deep scripts call each other. -/
theorem follows_perform_of {T : Track Fault World} {env : Env}
    (haside : ∀ {α : Type} {x : Run α}, asideTrack.Follows x → T.Follows x)
    (hstep : ∀ n, (∀ f call w, ∀ a ∈ env.script f call w, T.Follows (perform env n a)) → Supports T env (perform env n))
    (n : ℕ) (a : Act) : T.Follows (perform env n a) := by
  induction n generalizing a with
  | zero => exact haside (aside_throw _)
  | succ n ih => exact (hstep n fun _ _ _ b _ => ih b).performWith a

end Slam.Game
