import Slam.Game.BuffTable
import Slam.Game.CardScript

/-!
# A card that is settled more than once

`useCard` settles an attack once more for each layer of the player's double buff and takes the buff away
afterwards. `useCardMeant` is what its comments and the functions it calls ask for: a settlement draws no cards
while the player may not draw, and the buff that is taken away is the one that was found.

The code misses both. It asks `canDraw` about a variable that is not there, so everybody may draw; and it hands
`buff_remove` the base id of the buff, under which no buff stands unless the counter of buffs has come there.
-/

namespace Slam.Game

open Raising Track

variable {env : Env} {act : Act → Run Unit} {fuel : ℕ}

/-- The buff of `stats.lua` that forbids to draw. -/
def Stats.nodraw : ℤ := 3019

/-! ### What is meant -/

/-- `needDouble`, with the buff that `buff_find` has found. -/
def World.needDouble (w : World) (env : Env) (player c : ℤ) : Option ℤ :=
  if (w.cardAt c).base.category = .aggressive then w.buffFind env player doubleBuff else none

/-- `useTime`: once, and once more for each layer of the double buff of an attack. -/
def World.useTime (w : World) (env : Env) (player c : ℤ) : ℕ :=
  (1 + if (w.cardAt c).base.category = .aggressive then w.getBuffLayers env player doubleBuff else 0).toNat

/-- The settlement of a card without its effect on the player. -/
def settleOthers (env : Env) (act : Act → Run Unit) (fuel : ℕ) (player c : ℤ) (targets : List ℤ) : Run Unit := do
  let base ← cardBase c
  if base.damages then cardSettleDamage env act fuel player targets base
  if (← cardBase c).category = .aggressive then bleedTargets env act player targets
  cardSettleTargetEffect env act fuel c (env.pairs targets)

/-- The cards that a card draws from the three stacks. -/
def drawStacks (env : Env) (player : ℤ) (base : CardBase) : Run Unit := do
  cardDrawFromStackdeal env player base.drawStackdeal
  cardDrawFromStackdiscard env player base.drawStackdiscard
  cardDrawFromStackexhaust env player base.drawStackexhaust

/-- The stacks that a card shuffles. -/
def shuffleStacks (env : Env) (player : ℤ) (base : CardBase) : Run Unit := do
  if base.shuffleStackdiscard then shuffleStackdiscard env player
  if base.shuffleStackexhaust then shuffleStackexhaust env player

/-- `cardSettleSelfEffect` for a player who is asked whether he may draw. -/
def selfEffectMeant (env : Env) (player c : ℤ) : Run Unit := do
  let w ← get
  if (w.entityAt player).death then return
  let base := (w.cardAt c).base
  if w.getBuffLayers env player Stats.nodraw ≤ 0 then drawStacks env player base
  shuffleStacks env player base

/-- One settlement as it is meant. -/
def settleMeant (env : Env) (act : Act → Run Unit) (fuel : ℕ) (player c : ℤ) (targets : List ℤ) : Run Unit := do
  settleOthers env act fuel player c targets
  selfEffectMeant env player c

/-- The double buff that has been used is taken away, if nothing has taken it away before. -/
def removeUsed (env : Env) (act : Act → Run Unit) (player : ℤ) : Option ℤ → Run Unit
  | none => pure ()
  | some b => do
    if b ∈ (← getPack player).buffs then buffRemove env act player b

/-- `useCard` as it is meant. -/
def useCardMeant (env : Env) (act : Act → Run Unit) (fuel : ℕ) (player c : ℤ) (pick : Option ℤ) : Run Unit := do
  let targets ← cardGetTargets env player c pick
  let w ← get
  (List.range (w.useTime env player c)).forM fun _ => settleMeant env act fuel player c targets
  removeUsed env act player (w.needDouble env player c)

/-- `useCard` returns, and has done what is meant. -/
def UsesWell (env : Env) (act : Act → Run Unit) (fuel : ℕ) (player c : ℤ) (pick : Option ℤ) (w : World) : Prop :=
  ∃ w', useCard env act fuel player c pick w = .ok () w' ∧ useCardMeant env act fuel player c pick w = .ok () w'

/-! ### One settlement -/

/-- The card has nothing to draw for the player. -/
def World.DrawsNothing (w : World) (player c : ℤ) : Prop :=
  ((w.cardAt c).base.drawStackdeal ≤ 0 ∨ (w.pack player).stackDeal = []) ∧
    ((w.cardAt c).base.drawStackdiscard ≤ 0 ∨ (w.pack player).stackDiscard = []) ∧
    ((w.cardAt c).base.drawStackexhaust ≤ 0 ∨ (w.pack player).stackExhaust = [])

/-- The player is dead, may draw, or there is nothing to draw. -/
def World.DrawsRightly (w : World) (env : Env) (player c : ℤ) : Prop :=
  (w.entityAt player).death = true ∨ w.getBuffLayers env player Stats.nodraw ≤ 0 ∨ w.DrawsNothing player c

/-- Nothing is used up, the settlement returns, and its draws are right. -/
def SettlesWell (env : Env) (act : Act → Run Unit) (fuel : ℕ) (player c : ℤ) (pick : Option ℤ) (w : World) : Prop :=
  ∃ targets w₀ v, cardGetTargets env player c pick w = .ok targets w₀ ∧ w₀.needDouble env player c = none ∧
    settleOthers env act fuel player c targets w₀ = .ok () v ∧ v.DrawsRightly env player c ∧
    Returns (cardSettleSelfEffect env player c) v

theorem settleOnce_eq (player c : ℤ) (targets : List ℤ) :
    settleOnce env act fuel player c targets = (do
      settleOthers env act fuel player c targets
      cardSettleSelfEffect env player c) := by
  have hite {p : Prop} [Decidable p] (x y f : Run Unit) :
      (if p then x else y) >>= (fun _ => f) = if p then x >>= fun _ => f else y >>= fun _ => f := by
    split <;> rfl
  simp only [settleOnce, settleOthers, bind_assoc, hite]

/-- The effect on the player: first the draws, then the shuffles. -/
theorem selfEffect_eq (player c : ℤ) :
    cardSettleSelfEffect env player c = (do
      let w ← get
      if (w.entityAt player).death then return
      drawStacks env player (w.cardAt c).base
      shuffleStacks env player (w.cardAt c).base) := by
  simp only [cardSettleSelfEffect, drawStacks, shuffleStacks, bind_assoc]

/-! ### Draws and the hand -/

theorem cardDraw_nothing {s : Stack} {e : ℤ} {n : ℕ} {w : World} (h : n = 0 ∨ s.get (w.pack e) = []) :
    cardDraw env s e n w = .ok () w := by
  refine eq_ok_of_wp ?_
  cases n with
  | zero => exact rfl
  | succ n =>
    rw [cardDraw, wp_bind, wp_getPack, if_pos (List.length_eq_zero_iff.2 (h.resolve_left n.succ_ne_zero))]
    exact rfl

/-- The hand is as large as it was, or larger. -/
def grownTrack (e : ℤ) : Track Fault World where
  ok w w' := (w.pack e).stackHold.length ≤ (w'.pack e).stackHold.length
  error _ _ _ := True
  refl _ := le_refl _
  trans h h' := h.trans h'
  trans_error _ _ := trivial

/-- A turn of a draw puts one card into the hand. -/
theorem wp_drawOne_hold {f : Func} {s : Stack} (hs : s ≠ .hold) {e : ℤ} {w : World} (hcards : s.get (w.pack e) ≠ []) :
    wp (drawOne env f s e) (fun _ w' => (w'.pack e).stackHold.length = (w.pack e).stackHold.length + 1)
      (fun _ _ => True) w := by
  have hkeep (p : Pack) (cards : List ℤ) : (s.set p cards).stackHold = p.stackHold := by
    cases s with
    | hold => exact absurd rfl hs
    | _ => rfl
  obtain ⟨c, -, happly⟩ := tableRandom_apply env hcards w
  rw [drawOne, wp_bind, wp_getPack, wp_bind, wp_ok happly, wp_bind, wp_getPack, wp_bind, wp_assertion]
  refine ⟨fun _ => ?_, fun _ => trivial⟩
  rw [wp_bind, stackHoldInsert, stackInsert, wp_bind, wp_getPack, wp_bind, wp_assertion]
  refine ⟨fun _ => ?_, fun _ => trivial⟩
  rw [wp_bind, wp_modify, wp_modifyPack, stackRemove, wp_bind, wp_getPack, wp_bind, wp_assertion]
  refine ⟨fun _ => ?_, fun _ => trivial⟩
  rw [wp_bind, wp_modify, wp_modifyPack, World.pack_setPack_self, hkeep]
  show ((((w.reseed e _).touch e).setPack e _).pack e).stackHold.length = _
  rw [World.pack_setPack_self]
  show (((w.reseed e _).pack e).stackHold ++ [c]).length = _
  rw [World.pack_reseed, List.length_append, List.length_singleton]

theorem grown_cardDraw {s : Stack} (hs : s ≠ .hold) (e : ℤ) (n : ℕ) : (grownTrack e).Follows (cardDraw env s e n) := by
  induction n with
  | zero => exact follows_pure _
  | succ n ih =>
    intro w
    rw [cardDraw, wp_bind, wp_getPack, wp_ite]
    refine ⟨fun _ => le_refl _, fun hcards => ?_⟩
    rw [wp_bind]
    refine wp_mono (wp_drawOne_hold hs fun hnil => hcards (List.length_eq_zero_iff.2 hnil)) (fun _ u hu => ?_) fun _ _ h => h
    have hle : (w.pack e).stackHold.length ≤ (u.pack e).stackHold.length := by omega
    exact @wp_trans _ _ _ (grownTrack e) _ _ _ hle (ih u)

/-- A draw from a stack that is not empty makes the hand larger. -/
theorem wp_cardDraw_hold {s : Stack} (hs : s ≠ .hold) {e : ℤ} {n : ℕ} {w : World} (h : ¬ (n = 0 ∨ s.get (w.pack e) = [])) :
    wp (cardDraw env s e n) (fun _ w' => (w.pack e).stackHold.length < (w'.pack e).stackHold.length) (fun _ _ => True) w := by
  obtain ⟨hn, hcards⟩ := not_or.1 h
  obtain ⟨n, rfl⟩ := Nat.exists_eq_succ_of_ne_zero hn
  rw [cardDraw, wp_bind, wp_getPack, if_neg fun hnil => hcards (List.length_eq_zero_iff.1 hnil), wp_bind]
  refine wp_mono (wp_drawOne_hold hs hcards) (fun _ u hu => ?_) fun _ _ h => h
  refine wp_mono (grown_cardDraw hs e n u) (fun _ u' hu' => ?_) fun _ _ h => h
  exact lt_of_lt_of_le (by omega) hu'

/-- A card that has something to draw makes the hand larger. -/
theorem wp_drawStacks {player c : ℤ} {w : World} (h : ¬ w.DrawsNothing player c) :
    wp (drawStacks env player (w.cardAt c).base)
      (fun _ w' => (w.pack player).stackHold.length < (w'.pack player).stackHold.length) (fun _ _ => True) w := by
  have hdraws {s : Stack} {number : ℤ} (hdraw : number ≤ 0 ∨ s.get (w.pack player) = []) :
      cardDraw env s player number.toNat w = .ok () w :=
    cardDraw_nothing (hdraw.imp_left Int.toNat_of_nonpos)
  have hgrows {s : Stack} (hs : s ≠ .hold) {number : ℤ} (hdraw : ¬ (number ≤ 0 ∨ s.get (w.pack player) = [])) :=
    @wp_cardDraw_hold env s hs player number.toNat w fun h => hdraw (h.imp_left fun h => by omega)
  -- The draws that come after one that makes the hand larger do not make it smaller again.
  have hafter {x y : Run Unit} (hy : (grownTrack player).Follows y)
      (hx : wp x (fun _ w' => (w.pack player).stackHold.length < (w'.pack player).stackHold.length) (fun _ _ => True) w) :
      wp (x >>= fun _ => y) (fun _ w' => (w.pack player).stackHold.length < (w'.pack player).stackHold.length)
        (fun _ _ => True) w := by
    rw [wp_bind]
    exact wp_mono hx (fun _ u hu => wp_mono (hy u) (fun _ _ hu' => lt_of_lt_of_le hu hu') fun _ _ h => h) fun _ _ h => h
  by_cases hdeal : (w.cardAt c).base.drawStackdeal ≤ 0 ∨ (w.pack player).stackDeal = []
  · rw [drawStacks, cardDrawFromStackdeal, wp_bind, wp_ok (hdraws hdeal)]
    by_cases hdiscard : (w.cardAt c).base.drawStackdiscard ≤ 0 ∨ (w.pack player).stackDiscard = []
    · rw [cardDrawFromStackdiscard, wp_bind, wp_ok (hdraws hdiscard)]
      exact hgrows (by decide) fun hexhaust => h ⟨hdeal, hdiscard, hexhaust⟩
    · exact hafter (grown_cardDraw (by decide) _ _) (hgrows (by decide) hdiscard)
  · exact hafter ((grown_cardDraw (by decide) _ _).bind fun _ => grown_cardDraw (by decide) _ _) (hgrows (by decide) hdeal)

theorem drawStacks_nothing {player c : ℤ} {w : World} (h : w.DrawsNothing player c) :
    drawStacks env player (w.cardAt c).base w = .ok () w := by
  obtain ⟨hdeal, hdiscard, hexhaust⟩ := h
  have hdraw {s : Stack} {number : ℤ} (hnone : number ≤ 0 ∨ s.get (w.pack player) = []) :
      cardDraw env s player number.toNat w = .ok () w :=
    cardDraw_nothing (hnone.imp_left Int.toNat_of_nonpos)
  rw [drawStacks, cardDrawFromStackdeal, bind_of_ok (@hdraw .deal _ hdeal), cardDrawFromStackdiscard,
    bind_of_ok (@hdraw .discard _ hdiscard)]
  exact @hdraw .exhaust _ hexhaust

/-- A shuffle keeps the hand. -/
theorem hand_shuffleStacks (player : ℤ) (base : CardBase) : (handTrack player).Follows (shuffleStacks env player base) := by
  have hset {s : Stack} (hs : s ≠ .hold) (p : Pack) (cards : List ℤ) :
      (s.set p cards).stackHold = p.stackHold ∧ (s.set p cards).maxHoldCards = p.maxHoldCards := by
    cases s with
    | hold => exact absurd rfl hs
    | _ => exact ⟨rfl, rfl⟩
  have hinsert {s : Stack} (hs : s ≠ .hold) (c : ℤ) : (handTrack player).Follows (stackInsert s player c) :=
    (hand_getPack _).bind fun _ => (hand_assertion _ _).bind fun _ => (hand_modify (by intro; rfl)).bind fun _ =>
      hand_modifyPack (fun p => (hset hs p _).1) fun p => (hset hs p _).2
  have hremove {s : Stack} (hs : s ≠ .hold) (c : ℤ) : (handTrack player).Follows (stackRemove s player c) :=
    (hand_getPack _).bind fun _ => (hand_assertion _ _).bind fun _ => (hand_modify (by intro; rfl)).bind fun _ =>
      hand_modifyPack (fun p => (hset hs p _).1) fun p => (hset hs p _).2
  have hdiscard : (handTrack player).Follows (shuffleStackdiscard env player) :=
    (hand_getPack _).bind fun _ => Follows.forM fun c _ => (hinsert (by decide) c).bind fun _ => hremove (by decide) c
  have hexhaust : (handTrack player).Follows (shuffleStackexhaust env player) :=
    (hand_getPack _).bind fun _ => Follows.forM fun c _ => (hinsert (by decide) c).bind fun _ => hremove (by decide) c
  have hrest : (handTrack player).Follows (if base.shuffleStackexhaust then shuffleStackexhaust env player else pure ()) :=
    Follows.ite (fun _ => hexhaust) fun _ => follows_pure _
  exact Follows.ite (fun _ => hdiscard.bind fun _ => hrest) fun _ => hrest

/-! ### One settlement -/

/-- The effect on the player is as it is meant if the draws are right. -/
theorem selfEffectMeant_apply {player c : ℤ} {w : World} (h : w.DrawsRightly env player c) :
    selfEffectMeant env player c w = cardSettleSelfEffect env player c w := by
  rw [selfEffect_eq]
  show (if (w.entityAt player).death then pure () else _ : Run Unit) w = (if (w.entityAt player).death then pure () else _ : Run Unit) w
  by_cases hdead : (w.entityAt player).death = true
  · rw [if_pos hdead, if_pos hdead]
  rw [if_neg hdead, if_neg hdead]
  by_cases hmay : w.getBuffLayers env player Stats.nodraw ≤ 0
  · rw [if_pos hmay]
  · rw [if_neg hmay, bind_of_ok (drawStacks_nothing ((h.resolve_left hdead).resolve_left hmay))]

/-- If the two effects end alike then the draws are right. -/
theorem drawsRightly_of_ok {player c : ℤ} {w w' : World} (hok : cardSettleSelfEffect env player c w = .ok () w')
    (hmeant : selfEffectMeant env player c w = .ok () w') : w.DrawsRightly env player c := by
  by_contra h
  obtain ⟨hdead, hmay, hdraws⟩ : ¬ (w.entityAt player).death = true ∧ ¬ w.getBuffLayers env player Stats.nodraw ≤ 0 ∧
      ¬ w.DrawsNothing player c := by simpa only [World.DrawsRightly, not_or] using h
  have hsame : (w'.pack player).stackHold = (w.pack player).stackHold := by
    refine ((wp_ok hmeant).1 (?_ : wp _ (fun _ => HandKept player w) (fun _ _ => True) w)).hold
    show wp (if (w.entityAt player).death then pure () else _ : Run Unit) _ _ w
    rw [if_neg hdead]
    rw [if_neg hmay]
    exact hand_shuffleStacks player (w.cardAt c).base w
  have hmore : (w.pack player).stackHold.length < (w'.pack player).stackHold.length := by
    refine (wp_ok hok).1 (?_ : wp _ (fun _ w' => (w.pack player).stackHold.length < (w'.pack player).stackHold.length)
      (fun _ _ => True) w)
    rw [selfEffect_eq]
    show wp (if (w.entityAt player).death then pure () else _ : Run Unit) _ _ w
    rw [if_neg hdead, wp_bind]
    refine wp_mono (wp_drawStacks hdraws) (fun _ u hu => ?_) fun _ _ h => h
    exact wp_mono (hand_shuffleStacks player _ u) (fun _ u' hu' => by rw [hu'.hold]; exact hu) fun _ _ h => h
  rw [hsame] at hmore
  exact lt_irrefl _ hmore

/-! ### Where new buffs come from -/

/-- A buff that is in a table has been in it before, or the counter of buffs has passed it. -/
structure Fresh (w w' : World) : Prop where
  next : w.nextBuff ≤ w'.nextBuff
  buffs : ∀ e, ∀ b ∈ (w'.pack e).buffs, b ∈ (w.pack e).buffs ∨ w.nextBuff ≤ b ∧ b < w'.nextBuff

theorem Fresh.trans {w w' w'' : World} (h : Fresh w w') (h' : Fresh w' w'') : Fresh w w'' := by
  refine ⟨h.next.trans h'.next, fun e b hb => ?_⟩
  rcases h'.buffs e b hb with hb | hb
  · exact (h.buffs e b hb).imp_right fun hb => ⟨hb.1, hb.2.trans_le h'.next⟩
  · exact .inr ⟨h.next.trans hb.1, hb.2⟩

/-- The track of programs whose new buffs are fresh. -/
def freshTrack : Track Fault World where
  ok := Fresh
  error _ := Fresh
  refl _ := ⟨le_refl _, fun _ _ => .inl⟩
  trans := .trans
  trans_error := .trans

theorem fresh_aside {α : Type} {x : Run α} (h : asideTrack.Follows x) : freshTrack.Follows x := by
  have hfresh {w w' : World} (h : Aside w w') : Fresh w w' := ⟨h.nextBuff.ge, fun e b hb => .inl (h.buffs e ▸ hb)⟩
  exact h.mono (fun _ _ => hfresh) fun _ _ _ => hfresh

/-- Writing an entity, where no buff comes into its table. -/
theorem fresh_setEntity {w : World} {e : ℤ} {x : Entity} (h : ∀ b ∈ x.pack.buffs, b ∈ (w.pack e).buffs) :
    Fresh w (w.setEntity e x) := by
  refine ⟨le_refl _, fun i b hb => .inl ?_⟩
  by_cases hi : i = e
  · rw [hi] at hb ⊢
    rw [World.pack, World.entityAt_setEntity_self] at hb
    exact h b hb
  · rwa [World.pack, World.entityAt_setEntity_of_ne w hi] at hb

/-- A new buff comes into a table. -/
theorem fresh_insert (w : World) (e : ℤ) (x : Buff) {u : World} (hu : u = w.withBuff x) :
    Fresh w (u.setPack e { u.pack e with buffs := (u.pack e).buffs ++ [w.nextBuff] }) := by
  have hpack (i : ℤ) : u.pack i = w.pack i := by rw [hu]; rfl
  have hnext : u.nextBuff = w.nextBuff + 1 := by rw [hu]; rfl
  refine ⟨hnext.symm ▸ (Int.lt_succ _).le, fun i b hb => ?_⟩
  by_cases hi : i = e
  · rw [hi] at hb ⊢
    rw [World.pack_setPack_self, hpack] at hb
    refine (List.mem_append.1 hb).imp_right fun hb => ?_
    rw [List.mem_singleton.1 hb]
    exact ⟨le_refl _, hnext.symm ▸ Int.lt_succ _⟩
  · rw [World.pack_setPack_of_ne u hi, hpack] at hb
    exact .inl hb

section Scripts

variable (hscript : ∀ f call w, ∀ a ∈ env.script f call w, freshTrack.Follows (act a))
include hscript

theorem fresh_buffAdd (e baseid layers : ℤ) : freshTrack.Follows (buffAdd env act e baseid layers) := by
  have hbreak : freshTrack.Follows (breakpoint env act e none none none) :=
    follows_breakpoint_of fresh_aside hscript e none none none
  rw [buffAdd]
  split
  · exact fresh_aside (aside_throw _)
  · refine (fresh_aside (aside_getPack e)).bind fun p => Follows.ite (fun _ => follows_pure _) fun _ => ?_
    refine follows_get.bind fun w => ?_
    split
    · exact follows_modify fun w => ⟨le_refl _, fun _ _ => .inl⟩
    · refine hbreak.bind fun _ w => ?_
      rw [wp_bind]
      refine wp_buffNew (fun base _ => ?_) ⟨(Int.lt_succ _).le, fun _ _ => .inl⟩
      rw [wp_bind, wp_getPack, wp_bind, wp_assertion]
      refine ⟨fun _ => ?_, fun _ => ⟨(Int.lt_succ _).le, fun _ _ => .inl⟩⟩
      rw [wp_bind, wp_modifyPack]
      exact wp_trans (fresh_insert w e _ rfl) (hbreak _)

theorem fresh_buffRemove (e b : ℤ) : freshTrack.Follows (buffRemove env act e b) := by
  have hbreak : freshTrack.Follows (breakpoint env act e none none none) :=
    follows_breakpoint_of fresh_aside hscript e none none none
  refine (fresh_aside (aside_getPack e)).bind fun p => (fresh_aside (aside_assertion _ _)).bind fun _ => hbreak.bind fun _ => ?_
  refine (fresh_aside (aside_getPack e)).bind fun p => Follows.ite (fun _ => fresh_aside (aside_throw _)) fun _ => ?_
  refine (follows_modify fun w => ?_).bind fun _ => hbreak
  exact fresh_setEntity fun c hc => List.mem_of_mem_erase hc

theorem fresh_supports : Supports freshTrack env act where
  aside := fresh_aside
  hp _ _ := follows_modify fun _ => fresh_setEntity fun _ hb => hb
  death _ := follows_modify fun _ => fresh_setEntity fun _ hb => hb
  layersAdd _ _ := follows_modify fun _ => ⟨le_refl _, fun _ _ => .inl⟩
  buffAdd := fresh_buffAdd hscript
  buffRemove := fresh_buffRemove hscript
  script := hscript

end Scripts

theorem fresh_perform (n : ℕ) (a : Act) : freshTrack.Follows (perform env n a) :=
  follows_perform_of fresh_aside (fun _ hscript => fresh_supports hscript) n a

/-! ### A card that is used -/

/-- No double buff is used up. -/
theorem World.needDouble_eq_none {w : World} {player c : ℤ} :
    w.needDouble env player c = none ↔
      ((w.cardAt c).base.category = .aggressive → w.buffFind env player doubleBuff = none) := by
  rw [needDouble]
  split <;> simp_all

/-- A card that uses no double buff is settled once. -/
theorem World.useTime_of_none {w : World} {player c : ℤ} (h : w.needDouble env player c = none) :
    w.useTime env player c = 1 := by
  rw [needDouble_eq_none] at h
  rw [useTime]
  split
  · rename_i hcategory
    rw [getBuffLayers, getBuff, h hcategory]
    rfl
  · rfl

/-- An attack that uses one is settled once more for each of its layers. -/
theorem World.useTime_of_some {w : World} {player c b : ℤ} (h : w.needDouble env player c = some b) :
    w.useTime env player c = (1 + (w.buffAt b).layers).toNat := by
  rw [needDouble] at h
  split at h
  · rename_i hcategory
    rw [useTime, if_pos hcategory, getBuffLayers, getBuff, h]
  · cases h

theorem forM_once (x : Run Unit) : ((List.range 1).forM fun _ => x) = x :=
  bind_pure_unit

section UseCard

variable {player c : ℤ} {pick : Option ℤ} {targets : List ℤ} {w w₀ : World}
  (htargets : cardGetTargets env player c pick w = .ok targets w₀)
include htargets

theorem useCard_of_none (hnone : w₀.needDouble env player c = none) :
    useCard env act fuel player c pick w = settleOnce env act fuel player c targets w₀ := by
  rw [World.needDouble_eq_none] at hnone
  rw [useCard, bind_of_ok htargets]
  show (match w₀.buffFind env player doubleBuff with | none => _ | some b => _ : Run Unit) w₀ = _
  cases hfind : w₀.buffFind env player doubleBuff with
  | none => rfl
  | some b =>
    have hcategory : ¬ (w₀.cardAt c).base.category = .aggressive := fun h => by rw [hnone h] at hfind; cases hfind
    show (if _ then _ else _ : Run Unit) w₀ = _
    rw [if_neg hcategory]

theorem useCard_of_some {b : ℤ} (hsome : w₀.needDouble env player c = some b) :
    useCard env act fuel player c pick w = (do
      (List.range (w₀.useTime env player c)).forM fun _ => settleOnce env act fuel player c targets
      buffRemove env act player doubleBuff : Run Unit) w₀ := by
  rw [World.useTime_of_some hsome, useCard, bind_of_ok htargets]
  rw [World.needDouble] at hsome
  split at hsome
  · rename_i hcategory
    show (match w₀.buffFind env player doubleBuff with | none => _ | some b => _ : Run Unit) w₀ = _
    rw [hsome]
    show (if _ then _ else _ : Run Unit) w₀ = _
    rw [if_pos hcategory]
  · cases hsome

theorem useCardMeant_of_none (hnone : w₀.needDouble env player c = none) :
    useCardMeant env act fuel player c pick w = settleMeant env act fuel player c targets w₀ := by
  rw [useCardMeant, bind_of_ok htargets]
  show (do (List.range (w₀.useTime env player c)).forM fun _ => settleMeant env act fuel player c targets
           removeUsed env act player (w₀.needDouble env player c) : Run Unit) w₀ = _
  rw [World.useTime_of_none hnone, hnone, forM_once]
  exact congrFun (bind_pure_unit) w₀

/-- A card that uses no double buff and is used as it is meant is settled so. -/
theorem settlesWell_of_usesWell (hnone : w₀.needDouble env player c = none) (h : UsesWell env act fuel player c pick w) :
    SettlesWell env act fuel player c pick w := by
  obtain ⟨w', hok, hmeant⟩ := h
  rw [useCard_of_none htargets hnone, settleOnce_eq] at hok
  rw [useCardMeant_of_none htargets hnone, settleMeant] at hmeant
  obtain ⟨⟨⟩, v, hothers, hself⟩ := ok_of_bind hok
  rw [bind_of_ok hothers] at hmeant
  refine ⟨targets, w₀, v, htargets, hnone, hothers, drawsRightly_of_ok hself hmeant, ?_⟩
  rw [Returns, wp_ok hself]
  trivial

/-- A card that uses a double buff returns only if there is a buff with the base id of the double buff for its identifier. -/
theorem fresh_of_used {n : ℕ} {b : ℤ} {w' : World} (hsome : w₀.needDouble env player c = some b)
    (hok : useCard env (perform env n) fuel player c pick w = .ok () w') :
    doubleBuff ∈ (w.pack player).buffs ∨ w.nextBuff ≤ doubleBuff ∧ doubleBuff < w'.nextBuff := by
  have hsupports : Supports freshTrack env (perform env n) := fresh_supports fun _ _ _ a _ => fresh_perform n a
  rw [useCard_of_some htargets hsome] at hok
  obtain ⟨⟨⟩, v, hloop, hremove⟩ := ok_of_bind hok
  have hchosen : Fresh w w₀ := (wp_ok htargets).1 (fresh_aside (aside_cardGetTargets player c pick) w)
  have hsettled : Fresh w₀ v := (wp_ok hloop).1 (Follows.forM (fun _ _ => hsupports.settleOnce player c targets) w₀)
  have hremoved : Fresh v w' := (wp_ok hremove).1 (hsupports.buffRemove player doubleBuff v)
  have hmem : doubleBuff ∈ (v.pack player).buffs := by
    by_contra hmem
    rw [buffRemove, bind_of_ok (show getPack player v = .ok (v.pack player) v from rfl),
      bind_of_error (assertion_error hmem .buffRemove)] at hremove
    cases hremove
  exact ((hchosen.trans hsettled).buffs player doubleBuff hmem).imp_right fun h => ⟨h.1, h.2.trans_le hremoved.next⟩

end UseCard

/-- A card that uses no double buff is used as it is meant if it is settled so. -/
theorem usesWell_of_settlesWell {player c : ℤ} {pick : Option ℤ} {w : World}
    (h : SettlesWell env act fuel player c pick w) :
    UsesWell env act fuel player c pick w := by
  obtain ⟨targets, w₀, v, htargets, hnone, hothers, hdraws, hreturns⟩ := h
  refine ⟨endState (cardSettleSelfEffect env player c) v, ?_, ?_⟩
  · rw [useCard_of_none htargets hnone, settleOnce_eq, bind_of_ok hothers]
    exact eq_ok_of_returns hreturns
  · rw [useCardMeant_of_none htargets hnone, settleMeant, bind_of_ok hothers, selfEffectMeant_apply hdraws]
    exact eq_ok_of_returns hreturns

/-- **When `useCard` does what is meant.** It does if no double buff is used up, the one settlement returns, and the player
who begins to draw may draw or has nothing to draw. Nothing else makes it so, but for the accident that a buff of the player
has the base id of the double buff for its own identifier. -/
theorem useCard_double (n : ℕ) (player c : ℤ) (pick : Option ℤ) (w : World) :
    (SettlesWell env (perform env n) fuel player c pick w → UsesWell env (perform env n) fuel player c pick w) ∧
      (UsesWell env (perform env n) fuel player c pick w → SettlesWell env (perform env n) fuel player c pick w ∨
        doubleBuff ∈ (w.pack player).buffs ∨
        w.nextBuff ≤ doubleBuff ∧ doubleBuff < (endState (useCard env (perform env n) fuel player c pick) w).nextBuff) := by
  refine ⟨usesWell_of_settlesWell, fun h => ?_⟩
  obtain ⟨w', hok, hmeant⟩ := h
  obtain ⟨targets, w₀, htargets, -⟩ := ok_of_bind hok
  cases hneed : w₀.needDouble env player c with
  | none => exact .inl (settlesWell_of_usesWell htargets hneed ⟨w', hok, hmeant⟩)
  | some b =>
    rw [endState_of_ok hok]
    exact .inr (fresh_of_used htargets hneed hok)

/-- An entity 1 with the buff `baseid` on it, an attack 0 on itself that draws a card, and the card 5 to draw. -/
def drawing (baseid : ℤ) : World where
  entityAt _ := { pack := { hp := 3, maxhp := 3, buffs := [0], stackDeal := [5] } }
  cardAt _ := { baseid := 0, base := { category := .aggressive, requireTarget := .self, drawStackdeal := 1 } }
  buffAt _ := { entity := 1, baseid := baseid, base := {}, layers := 2 }
  nextBuff := 1
  scene := some { sceneMatch := some { entities := [1] } }

/-- The double buff is not found under its base id; and a card is drawn for a player who may not draw. -/
theorem useCard_astray :
    fault (useCard plainEnv (perform plainEnv 1) 1 1 0 none) (drawing doubleBuff) = some (.assertion .buffRemove) ∧
      ¬ UsesWell plainEnv (perform plainEnv 1) 1 1 0 none (drawing doubleBuff) ∧
      ((endState (useCard plainEnv (perform plainEnv 1) 1 1 0 none) (drawing Stats.nodraw)).pack 1).stackHold = [5] ∧
      ¬ UsesWell plainEnv (perform plainEnv 1) 1 1 0 none (drawing Stats.nodraw) := by
  refine ⟨by decide +kernel, ?_, by decide +kernel, ?_⟩ <;> rintro ⟨w', hok, hmeant⟩
  · have hraised : fault (useCard plainEnv (perform plainEnv 1) 1 1 0 none) (drawing doubleBuff) ≠ none := by decide +kernel
    exact hraised (by rw [fault, hok])
  · have hdiffer : ((endState (useCard plainEnv (perform plainEnv 1) 1 1 0 none) (drawing Stats.nodraw)).pack 1).stackHold ≠
        ((endState (useCardMeant plainEnv (perform plainEnv 1) 1 1 0 none) (drawing Stats.nodraw)).pack 1).stackHold := by
      decide +kernel
    exact hdiffer (by rw [endState_of_ok hok, endState_of_ok hmeant])

end Slam.Game
