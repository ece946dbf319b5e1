import Slam.Game.Settle

/-!
# What leaves hit points and buffs aside

Most functions of the logic touch neither the hit points of an entity nor its buffs, and they kill nobody.
`asideTrack` says so of each of them, whether it returns or raises. What is proved about damage, about
buffs and about breakpoints then has to look at the few functions that are left.
-/

namespace Slam.Game

open Raising Track

variable {env : Env}

/-- Hit points, deaths and buffs are as they were, and so are the entities of the match. -/
structure Aside (w w' : World) : Prop where
  death : ∀ e, (w'.entityAt e).death = (w.entityAt e).death
  hp : ∀ e, (w'.pack e).hp = (w.pack e).hp
  buffs : ∀ e, (w'.pack e).buffs = (w.pack e).buffs
  buffAt : w'.buffAt = w.buffAt
  nextBuff : w'.nextBuff = w.nextBuff
  entities : w'.sceneMatch.map Match.entities = w.sceneMatch.map Match.entities

theorem Aside.refl (w : World) : Aside w w := ⟨fun _ => rfl, fun _ => rfl, fun _ => rfl, rfl, rfl, rfl⟩

theorem Aside.trans {w w' w'' : World} (h : Aside w w') (h' : Aside w' w'') : Aside w w'' where
  death e := (h'.death e).trans (h.death e)
  hp e := (h'.hp e).trans (h.hp e)
  buffs e := (h'.buffs e).trans (h.buffs e)
  buffAt := h'.buffAt.trans h.buffAt
  nextBuff := h'.nextBuff.trans h.nextBuff
  entities := h'.entities.trans h.entities

/-- The track of programs that leave hit points and buffs aside. -/
def asideTrack : Track Fault World where
  ok := Aside
  error _ := Aside
  refl := .refl
  trans := .trans
  trans_error := .trans

theorem aside_throw {α : Type} (f : Fault) : asideTrack.Follows (throw f : Run α) := follows_throw .refl

theorem aside_assertion (p : Prop) [Decidable p] (f : Func) : asideTrack.Follows (assertion p f) :=
  Follows.ite (fun _ => follows_pure _) fun _ => aside_throw _

theorem aside_getPack (e : ℤ) : asideTrack.Follows (getPack e) := follows_get.bind fun _ => follows_pure _

theorem aside_getMatch : asideTrack.Follows getMatch := by
  refine follows_get.bind fun w => ?_
  split
  · exact follows_pure _
  · exact aside_throw _

/-- Entities, buffs and the match stay. -/
theorem aside_modify {f : World → World} (hentity : ∀ w, (f w).entityAt = w.entityAt)
    (hbuffAt : ∀ w, (f w).buffAt = w.buffAt) (hnext : ∀ w, (f w).nextBuff = w.nextBuff)
    (hscene : ∀ w, (f w).scene = w.scene) : asideTrack.Follows (modify f : Run PUnit) := by
  refine follows_modify fun w => ⟨fun e => by rw [hentity], fun e => ?_, fun e => ?_, hbuffAt w, hnext w, ?_⟩
  · rw [World.pack, hentity]
    rfl
  · rw [World.pack, hentity]
    rfl
  · rw [World.sceneMatch, hscene]
    rfl

theorem aside_modifyEntity {e : ℤ} {f : Entity → Entity} (hdeath : ∀ x, (f x).death = x.death)
    (hhp : ∀ x, (f x).pack.hp = x.pack.hp) (hbuffs : ∀ x, (f x).pack.buffs = x.pack.buffs) :
    asideTrack.Follows (modifyEntity e f) := by
  refine follows_modify fun w => ⟨fun i => ?_, fun i => ?_, fun i => ?_, rfl, rfl, rfl⟩
  · by_cases hi : i = e
    · rw [hi, World.entityAt_setEntity_self, hdeath]
    · rw [World.entityAt_setEntity_of_ne w hi]
  · by_cases hi : i = e
    · rw [hi, World.pack, World.entityAt_setEntity_self, hhp]
      rfl
    · rw [World.pack, World.entityAt_setEntity_of_ne w hi]
      rfl
  · by_cases hi : i = e
    · rw [hi, World.pack, World.entityAt_setEntity_self, hbuffs]
      rfl
    · rw [World.pack, World.entityAt_setEntity_of_ne w hi]
      rfl

theorem aside_modifyPack {e : ℤ} {f : Pack → Pack} (hhp : ∀ p, (f p).hp = p.hp) (hbuffs : ∀ p, (f p).buffs = p.buffs) :
    asideTrack.Follows (modifyPack e f) :=
  @aside_modifyEntity e (fun x => { x with pack := f x.pack }) (fun _ => rfl) (fun x => hhp x.pack) fun x => hbuffs x.pack

theorem aside_modifyMatch {f : Match → Match} (h : ∀ m, (f m).entities = m.entities) :
    asideTrack.Follows (modifyMatch f) := by
  refine follows_modify fun w => ⟨fun _ => rfl, fun _ => rfl, fun _ => rfl, rfl, rfl, ?_⟩
  rw [World.sceneMatch_mapMatch, Option.map_map, show Match.entities ∘ f = Match.entities from funext h]

theorem aside_record (r : Record) : asideTrack.Follows (record r) :=
  aside_modify (fun _ => rfl) (fun _ => rfl) (fun _ => rfl) fun _ => rfl

theorem aside_attributeAdd (a : Attribute) (e value : ℤ) : asideTrack.Follows (attributeAdd a e value) := by
  refine Follows.ite (fun _ => follows_pure _) fun _ => (aside_getPack e).bind fun p => ?_
  refine (aside_assertion _ _).bind fun _ => ?_
  exact aside_modifyPack (fun p => by cases a <;> rfl) fun p => by cases a <;> rfl

theorem aside_cardNew (baseid : ℤ) : asideTrack.Follows (cardNew env baseid) := by
  refine follows_get.bind fun w => (aside_modify (by intro; rfl) (by intro; rfl) (by intro; rfl) (by intro; rfl)).bind fun _ => ?_
  split
  · exact aside_throw _
  · refine (aside_modify (by intro; rfl) (by intro; rfl) (by intro; rfl) (by intro; rfl)).bind fun _ => ?_
    exact (aside_assertion _ _).bind fun _ => follows_pure _

theorem aside_notify (c : ClientCall) : asideTrack.Follows (notify c) :=
  aside_modify (fun _ => rfl) (fun _ => rfl) (fun _ => rfl) fun _ => rfl

theorem aside_maxhpAdd (e value : ℤ) : asideTrack.Follows (maxhpAdd e value) := by
  refine Follows.ite (fun _ => follows_pure _) fun _ => ?_
  refine (aside_modifyPack (by intro; rfl) (by intro; rfl)).bind fun _ => ?_
  exact (aside_getPack e).bind fun _ => aside_assertion _ _

theorem aside_setField (c : ℤ) (base : CardBase) : asideTrack.Follows (setField c base) :=
  aside_modify (fun _ => rfl) (fun _ => rfl) (fun _ => rfl) fun _ => rfl

theorem aside_addGold (e value : ℤ) : asideTrack.Follows (addGold e value) := by
  refine (aside_getPack e).bind fun p => (aside_assertion _ _).bind fun _ => ?_
  refine (aside_modifyPack (by intro; rfl) (by intro; rfl)).bind fun _ => ?_
  exact (aside_getPack e).bind fun _ => aside_notify _

theorem aside_addCard (e baseid : ℤ) : asideTrack.Follows (addCard env e baseid) := by
  refine (aside_cardNew baseid).bind fun c => (aside_getPack e).bind fun p => (aside_assertion _ _).bind fun _ => ?_
  refine (aside_modifyPack (by intro; rfl) (by intro; rfl)).bind fun _ => ?_
  exact (aside_notify _).bind fun _ => follows_pure _

theorem aside_itemNew (baseid number : ℤ) : asideTrack.Follows (itemNew env baseid number) := by
  rw [itemNew]
  split
  · exact aside_throw _
  · refine follows_get.bind fun w => ?_
    refine (aside_modify (by intro; rfl) (by intro; rfl) (by intro; rfl) (by intro; rfl)).bind fun _ => ?_
    refine (aside_modify (by intro; rfl) (by intro; rfl) (by intro; rfl) (by intro; rfl)).bind fun _ => ?_
    exact (aside_assertion _ _).bind fun _ => follows_pure _

theorem aside_setNumber (i number : ℤ) : asideTrack.Follows (setNumber i number) :=
  aside_modify (fun _ => rfl) (fun _ => rfl) (fun _ => rfl) fun _ => rfl

theorem aside_addItemLoop (e baseid : ℤ) (slots : ℕ) (number : ℤ) :
    asideTrack.Follows (addItemLoop env e baseid slots number) := by
  induction slots generalizing number with
  | zero => exact follows_pure _
  | succ slots ih =>
    refine Follows.ite (fun _ => ?_) fun _ => follows_pure _
    refine (aside_itemNew _ _).bind fun i => (aside_getPack e).bind fun p => (aside_assertion _ _).bind fun _ => ?_
    refine (aside_modifyPack (by intro; rfl) (by intro; rfl)).bind fun _ => (aside_notify _).bind fun _ => ?_
    exact follows_get.bind fun w => Follows.ite (fun _ => ih _) fun _ => follows_pure _

theorem aside_addItem (e baseid number : ℤ) : asideTrack.Follows (addItem env e baseid number) := by
  refine follows_get.bind fun w => ?_
  split
  · exact aside_addItemLoop _ _ _ _
  · refine (aside_setNumber _ _).bind fun _ => follows_get.bind fun u => (aside_notify _).bind fun _ => ?_
    exact aside_addItemLoop _ _ _ _

theorem aside_stackInsert (s : Stack) (e c : ℤ) : asideTrack.Follows (stackInsert s e c) := by
  refine (aside_getPack e).bind fun p => (aside_assertion _ _).bind fun _ => ?_
  refine (aside_modify (by intro; rfl) (by intro; rfl) (by intro; rfl) (by intro; rfl)).bind fun _ => ?_
  exact aside_modifyPack (fun p => by cases s <;> rfl) fun p => by cases s <;> rfl

theorem aside_stackRemove (s : Stack) (e c : ℤ) : asideTrack.Follows (stackRemove s e c) := by
  refine (aside_getPack e).bind fun p => (aside_assertion _ _).bind fun _ => ?_
  refine (aside_modify (by intro; rfl) (by intro; rfl) (by intro; rfl) (by intro; rfl)).bind fun _ => ?_
  exact aside_modifyPack (fun p => by cases s <;> rfl) fun p => by cases s <;> rfl

theorem aside_stackHoldNewone (e baseid : ℤ) : asideTrack.Follows (stackHoldNewone env e baseid) :=
  (aside_cardNew baseid).bind fun _ => (aside_stackInsert _ _ _).bind fun _ => aside_modifyPack (fun _ => rfl) fun _ => rfl

theorem aside_leaveHand (e c : ℤ) : asideTrack.Follows (leaveHand e c) :=
  (aside_stackRemove _ _ _).bind fun _ => aside_modifyPack (fun _ => rfl) fun _ => rfl

theorem aside_fileCard (e c : ℤ) : asideTrack.Follows (fileCard e c) := by
  have hfile : asideTrack.Follows (modifyPack e fun p => { p with settling := p.settling.erase c }) :=
    aside_modifyPack (fun _ => rfl) fun _ => rfl
  refine follows_get.bind fun w => Follows.ite (fun _ => (aside_stackInsert _ _ _).bind fun _ => hfile) fun _ => ?_
  refine Follows.ite (fun _ => (aside_stackInsert _ _ _).bind fun _ => hfile) fun _ => ?_
  exact aside_modifyPack (fun _ => rfl) fun _ => rfl

theorem aside_shuffleStackdiscard (e : ℤ) : asideTrack.Follows (shuffleStackdiscard env e) :=
  (aside_getPack e).bind fun _ => Follows.forM fun _ _ =>
    (aside_stackInsert _ _ _).bind fun _ => aside_stackRemove _ _ _

theorem aside_shuffleStackexhaust (e : ℤ) : asideTrack.Follows (shuffleStackexhaust env e) :=
  (aside_getPack e).bind fun _ => Follows.forM fun _ _ =>
    (aside_stackInsert _ _ _).bind fun _ => aside_stackRemove _ _ _

theorem aside_tableRandom (e : ℤ) (keys : List ℤ) : asideTrack.Follows (tableRandom env e keys) := by
  refine Follows.ite (fun _ => follows_pure _) fun _ => follows_get.bind fun w => ?_
  have hseed (seed : ℤ) : asideTrack.Follows (modifyEntity e fun x => { x with seed := seed }) :=
    aside_modifyEntity (fun _ => rfl) (fun _ => rfl) fun _ => rfl
  exact (hseed _).bind fun _ => follows_pure _

theorem aside_drawOne (f : Func) (s : Stack) (e : ℤ) : asideTrack.Follows (drawOne env f s e) := by
  refine (aside_getPack e).bind fun p => (aside_tableRandom e _).bind fun c => ?_
  split
  · exact aside_throw _
  · refine (aside_getPack e).bind fun p => (aside_assertion _ _).bind fun _ => ?_
    exact (aside_stackInsert _ _ _).bind fun _ => aside_stackRemove _ _ _

theorem aside_cardDraw (s : Stack) (e : ℤ) (n : ℕ) : asideTrack.Follows (cardDraw env s e n) := by
  induction n with
  | zero => exact follows_pure _
  | succ n ih =>
    refine (aside_getPack e).bind fun p => ?_
    exact Follows.ite (fun _ => follows_pure _) fun _ => (aside_drawOne _ _ _).bind fun _ => ih

theorem aside_dealCards (e : ℤ) (n : ℕ) : asideTrack.Follows (dealCards env e n) := by
  induction n with
  | zero => exact follows_pure _
  | succ n ih =>
    have hrest : asideTrack.Follows (do
        if (← getPack e).stackDeal.length = 0 then return
        drawOne env .cardDealPick .deal e
        dealCards env e n) :=
      (aside_getPack e).bind fun _ => Follows.ite (fun _ => follows_pure _) fun _ => (aside_drawOne _ _ _).bind fun _ => ih
    refine (aside_getPack e).bind fun p => ?_
    exact Follows.ite (fun _ => (aside_shuffleStackdiscard e).bind fun _ => hrest) fun _ => hrest

theorem aside_nextRoundLoop (n : ℕ) : asideTrack.Follows (nextRoundLoop n) := by
  induction n with
  | zero => exact aside_throw _
  | succ n ih =>
    refine aside_getMatch.bind fun m => ?_
    split
    · refine (aside_modifyMatch (by intro; rfl)).bind fun _ => ?_
      split
      · exact aside_throw _
      · refine Follows.ite (fun _ => aside_throw _) fun _ => follows_get.bind fun w => ?_
        exact Follows.ite (fun _ => ih) fun _ => follows_pure _
    · exact aside_throw _

theorem aside_nextRoundEntity : asideTrack.Follows nextRoundEntity :=
  aside_getMatch.bind fun _ => (aside_modifyMatch (by intro; rfl)).bind fun _ => aside_nextRoundLoop _

theorem aside_done (side : Side) : asideTrack.Follows (done side) :=
  aside_getMatch.bind fun _ => Follows.ite
    (fun _ => (aside_assertion _ _).bind fun _ => aside_modifyMatch (by intro; rfl)) fun _ => follows_pure _

theorem aside_arith {α : Type} (x : Option α) : asideTrack.Follows (arith x) := by
  cases x with
  | none => exact aside_throw _
  | some x => exact follows_pure _

theorem aside_targetsRandom (e : ℤ) (side : Side) (pick : Option ℤ) : asideTrack.Follows (targetsRandom env e side pick) := by
  refine aside_getMatch.bind fun m => ?_
  split
  · exact follows_get.bind fun _ => follows_pure _
  · exact follows_get.bind fun _ => (aside_tableRandom _ _).bind fun _ => follows_pure _

theorem aside_cardGetTargets (e c : ℤ) (pick : Option ℤ) : asideTrack.Follows (cardGetTargets env e c pick) := by
  refine follows_get.bind fun w => ?_
  split
  · exact follows_pure _
  · exact aside_targetsRandom _ _ _
  · exact aside_targetsRandom _ _ _
  · exact follows_pure _
  · exact (aside_tableRandom _ _).bind fun _ => follows_pure _
  · exact aside_getMatch.bind fun _ => follows_pure _
  · exact aside_getMatch.bind fun _ => follows_pure _
  · exact aside_getMatch.bind fun _ => follows_pure _
  · exact aside_getMatch.bind fun _ => follows_pure _
  · exact aside_targetsRandom _ _ _
  · exact aside_targetsRandom _ _ _
  · exact aside_getMatch.bind fun _ => follows_pure _

theorem aside_matchEntity (id : ℤ) : asideTrack.Follows (matchEntity id) :=
  aside_getMatch.bind fun _ => Follows.ite (fun _ => follows_pure _) fun _ => follows_pure _

theorem aside_pickEntity (pick : Option ℤ) : asideTrack.Follows (pickEntity pick) := by
  cases pick with
  | none => exact follows_pure _
  | some p => exact aside_getMatch.bind fun _ => Follows.ite (fun _ => follows_pure _) fun _ => follows_pure _

theorem aside_calcCardAttack (player attack : ℤ) : asideTrack.Follows (calcCardAttack env player attack) :=
  follows_get.bind fun _ => (aside_arith _).bind fun _ => follows_pure _

theorem aside_gainArmor (player damage : ℤ) : asideTrack.Follows (gainArmor env player damage) :=
  Follows.ite (fun _ => follows_get.bind fun _ => Follows.ite
    (fun _ => Follows.ite (fun _ => follows_pure _) fun _ => aside_throw _) fun _ => follows_pure _) fun _ => follows_pure _

theorem aside_cardSettleSelfEffect (player c : ℤ) : asideTrack.Follows (cardSettleSelfEffect env player c) := by
  refine follows_get.bind fun w => Follows.ite (fun _ => follows_pure _) fun _ => ?_
  refine (aside_cardDraw _ _ _).bind fun _ => (aside_cardDraw _ _ _).bind fun _ => (aside_cardDraw _ _ _).bind fun _ => ?_
  have hexhaust : asideTrack.Follows (if (w.cardAt c).base.shuffleStackexhaust then
      shuffleStackexhaust env player else pure ()) :=
    Follows.ite (fun _ => aside_shuffleStackexhaust player) fun _ => follows_pure _
  exact Follows.ite (fun _ => (aside_shuffleStackdiscard player).bind fun _ => hexhaust) fun _ => hexhaust

end Slam.Game
