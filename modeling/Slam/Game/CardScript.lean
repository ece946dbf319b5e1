import Slam.Game.BuffScript

/-!
# `cardscript.lua` at a discard, and the hand meanwhile

The functions of `CardScript` answer to `CARD_PLAY_Z`, except that `blood` answers when a card is discarded: it deals
the damage of the card to the entity that discards it. The damage may run the scripts of buffs and may kill the
entity, and a death hands the turn over to entities whose rounds begin then. None of this touches the hand.

While the entity lives only its own buffs are at work, and `handTrack` says that the hand stays. Once it is dead
nobody begins a round for it any more, and `deadTrack` says that everything that scripts do leaves its hand.
-/

namespace Slam.Game

open Raising Track

/-- The functions of `CardScript`. -/
inductive CardFunc
  | common | multiStrike | entrench | dunji1 | dunji2 | curse | blood | xingfenji | yazhi
  deriving DecidableEq

/-- What the script of a card does at the breakpoints of a card other than `CARD_PLAY_Z`. -/
def CardFunc.acts (f : CardFunc) (e : ℤ) (base : CardBase) (bp : BreakPoint) : List Act :=
  if f = .blood ∧ bp = .cardDiscardA then [.damageOne e base.damageValue base.damageType] else []

/-- Before a card is played and when it is discarded, the scripts of cards are those of `CardScript`; `cards` is the
function behind an identifier. -/
def Env.ShipsCards (env : Env) (cards : ScriptFunc → CardFunc) : Prop :=
  ∀ f call w c bp, call.buff = none → call.card = some c → call.bp = some bp → bp ≠ .cardPlayZ →
    env.script f call w = (cards f).acts call.entity (w.cardAt c).base bp

/-! ### Tracks -/

/-- The hand of the entity stays, and so does its limit; an entity that is dead stays dead. -/
structure HandKept (e : ℤ) (w w' : World) : Prop where
  hold : (w'.pack e).stackHold = (w.pack e).stackHold
  limit : (w'.pack e).maxHoldCards = (w.pack e).maxHoldCards
  dead : (w.entityAt e).death = true → (w'.entityAt e).death = true

theorem HandKept.trans {e : ℤ} {w w' w'' : World} (h : HandKept e w w') (h' : HandKept e w' w'') : HandKept e w w'' :=
  ⟨h'.hold.trans h.hold, h'.limit.trans h.limit, fun hdead => h'.dead (h.dead hdead)⟩

/-- The hand stays. -/
def handTrack (e : ℤ) : Track Fault World where
  ok := HandKept e
  error _ _ _ := True
  refl _ := ⟨rfl, rfl, id⟩
  trans h h' := h.trans h'
  trans_error _ _ := trivial

/-- The hand stays if the entity is dead. -/
def deadTrack (e : ℤ) : Track Fault World where
  ok w w' := (w.entityAt e).death = true → HandKept e w w'
  error _ _ _ := True
  refl _ _ := ⟨rfl, rfl, id⟩
  trans h h' hdead := (h hdead).trans (h' ((h hdead).dead hdead))
  trans_error _ _ := trivial

/-- Nothing has happened. -/
def idleTrack : Track Fault World where
  ok w w' := w' = w
  error _ _ _ := True
  refl _ := rfl
  trans h h' := h'.trans h
  trans_error _ _ := trivial

section

variable {env : Env} {e : ℤ}

theorem dead_of_hand {α : Type} {x : Run α} (h : (handTrack e).Follows x) : (deadTrack e).Follows x :=
  h.mono (fun _ _ hok _ => hok) fun _ _ _ _ => trivial

/-- Nothing is asked for if the entity lives. -/
theorem dead_of_wp {α : Type} {x : Run α}
    (h : ∀ w : World, (w.entityAt e).death = true → wp x (fun _ => HandKept e w) (fun _ _ => True) w) :
    (deadTrack e).Follows x :=
  fun w => wp_mono (wp_imp (h w)) (fun _ _ hok => hok) fun _ _ _ => trivial

theorem hand_throw {α : Type} (f : Fault) : (handTrack e).Follows (throw f : Run α) := follows_throw fun _ => trivial

theorem hand_assertion (p : Prop) [Decidable p] (f : Func) : (handTrack e).Follows (assertion p f) :=
  Follows.ite (fun _ => follows_pure _) fun _ => hand_throw _

theorem hand_getPack (i : ℤ) : (handTrack e).Follows (getPack i) := follows_get.bind fun _ => follows_pure _

theorem hand_getMatch : (handTrack e).Follows getMatch := by
  refine follows_get.bind fun w => ?_
  split
  · exact follows_pure _
  · exact hand_throw _

theorem hand_modify {f : World → World} (hentity : ∀ w, (f w).entityAt = w.entityAt) :
    (handTrack e).Follows (modify f : Run PUnit) := by
  refine follows_modify fun w => ⟨?_, ?_, fun hdead => ?_⟩
  · rw [World.pack, hentity, World.pack]
  · rw [World.pack, hentity, World.pack]
  · rw [hentity]
    exact hdead

theorem hand_modifyEntity {i : ℤ} {f : Entity → Entity} (hhold : ∀ x, (f x).pack.stackHold = x.pack.stackHold)
    (hlimit : ∀ x, (f x).pack.maxHoldCards = x.pack.maxHoldCards) (hdead : ∀ x, x.death = true → (f x).death = true) :
    (handTrack e).Follows (modifyEntity i f) := by
  refine follows_modify fun w => ?_
  by_cases hi : e = i
  · subst hi
    refine ⟨?_, ?_, ?_⟩
    · rw [World.pack, World.entityAt_setEntity_self, hhold, World.pack]
    · rw [World.pack, World.entityAt_setEntity_self, hlimit, World.pack]
    · rw [World.entityAt_setEntity_self]
      exact hdead _
  · have hsame := World.entityAt_setEntity_of_ne w hi (f (w.entityAt i))
    refine ⟨?_, ?_, ?_⟩
    · rw [World.pack, hsame, World.pack]
    · rw [World.pack, hsame, World.pack]
    · rw [hsame]
      exact id

/-- Another entity. -/
theorem hand_modifyEntity_of_ne {i : ℤ} (hi : i ≠ e) {f : Entity → Entity} : (handTrack e).Follows (modifyEntity i f) := by
  refine follows_modify fun w => ?_
  have hsame := World.entityAt_setEntity_of_ne w hi.symm (f (w.entityAt i))
  refine ⟨?_, ?_, ?_⟩
  · rw [World.pack, hsame, World.pack]
  · rw [World.pack, hsame, World.pack]
  · rw [hsame]
    exact id

theorem hand_modifyPack {i : ℤ} {f : Pack → Pack} (hhold : ∀ p, (f p).stackHold = p.stackHold)
    (hlimit : ∀ p, (f p).maxHoldCards = p.maxHoldCards) : (handTrack e).Follows (modifyPack i f) :=
  @hand_modifyEntity e i (fun x => { x with pack := f x.pack }) (fun x => hhold x.pack) (fun x => hlimit x.pack) fun _ => id

theorem hand_modifyPack_of_ne {i : ℤ} (hi : i ≠ e) {f : Pack → Pack} : (handTrack e).Follows (modifyPack i f) :=
  @hand_modifyEntity_of_ne e i hi fun x => { x with pack := f x.pack }

theorem hand_record (r : Record) : (handTrack e).Follows (record r) := hand_modify fun _ => rfl

theorem hand_modifyMatch (f : Match → Match) : (handTrack e).Follows (modifyMatch f) := hand_modify fun _ => rfl

theorem hand_layersAdd (b value : ℤ) : (handTrack e).Follows (layersAdd b value) := hand_modify fun _ => rfl

theorem hand_attributeAdd (a : Attribute) (i value : ℤ) : (handTrack e).Follows (attributeAdd a i value) := by
  refine Follows.ite (fun _ => follows_pure _) fun _ => (hand_getPack i).bind fun p => ?_
  refine (hand_assertion _ _).bind fun _ => hand_modifyPack (fun p => ?_) fun p => ?_
  · cases a <;> rfl
  · cases a <;> rfl

theorem hand_arith {α : Type} (x : Option α) : (handTrack e).Follows (arith x) := by
  cases x with
  | none => exact hand_throw _
  | some x => exact follows_pure _

theorem hand_done (side : Side) : (handTrack e).Follows (done side) :=
  hand_getMatch.bind fun _ => Follows.ite
    (fun _ => (hand_assertion _ _).bind fun _ => hand_modifyMatch _) fun _ => follows_pure _

theorem hand_nextRoundLoop (n : ℕ) : (handTrack e).Follows (nextRoundLoop n) := by
  induction n with
  | zero => exact hand_throw _
  | succ n ih =>
    refine hand_getMatch.bind fun m => ?_
    split
    · refine (hand_modifyMatch _).bind fun _ => ?_
      split
      · exact hand_throw _
      · refine Follows.ite (fun _ => hand_throw _) fun _ => follows_get.bind fun w => ?_
        exact Follows.ite (fun _ => ih) fun _ => follows_pure _
    · exact hand_throw _

theorem hand_nextRoundEntity : (handTrack e).Follows nextRoundEntity :=
  hand_getMatch.bind fun _ => (hand_modifyMatch _).bind fun _ => hand_nextRoundLoop _

theorem hand_buffNew (i baseid layers : ℤ) : (handTrack e).Follows (buffNew env i baseid layers) := by
  refine follows_get.bind fun w => (hand_modify (by intro; rfl)).bind fun _ => ?_
  split
  · exact hand_throw _
  · refine (hand_assertion _ _).bind fun _ => (hand_modify (by intro; rfl)).bind fun _ => ?_
    exact (hand_layersAdd _ _).bind fun _ => follows_pure _

/-! ### The stacks of others -/

section Others

variable {i : ℤ} (hi : i ≠ e)
include hi

theorem hand_stackInsert (s : Stack) (c : ℤ) : (handTrack e).Follows (stackInsert s i c) :=
  (hand_getPack i).bind fun _ => (hand_assertion _ _).bind fun _ => (hand_modify (by intro; rfl)).bind fun _ =>
    hand_modifyPack_of_ne hi

theorem hand_stackRemove (s : Stack) (c : ℤ) : (handTrack e).Follows (stackRemove s i c) :=
  (hand_getPack i).bind fun _ => (hand_assertion _ _).bind fun _ => (hand_modify (by intro; rfl)).bind fun _ =>
    hand_modifyPack_of_ne hi

theorem hand_stackHoldNewone (baseid : ℤ) : (handTrack e).Follows (stackHoldNewone env i baseid) := by
  have hnew : (handTrack e).Follows (cardNew env baseid) := by
    refine follows_get.bind fun w => (hand_modify (by intro; rfl)).bind fun _ => ?_
    split
    · exact hand_throw _
    · refine (hand_modify (by intro; rfl)).bind fun _ => ?_
      exact (hand_assertion _ _).bind fun _ => follows_pure _
  exact hnew.bind fun _ => (hand_stackInsert hi _ _).bind fun _ => hand_modifyPack_of_ne hi

theorem hand_shuffleStackdiscard : (handTrack e).Follows (shuffleStackdiscard env i) :=
  (hand_getPack i).bind fun _ => Follows.forM fun _ _ =>
    (hand_stackInsert hi _ _).bind fun _ => hand_stackRemove hi _ _

theorem hand_drawOne (f : Func) (s : Stack) : (handTrack e).Follows (drawOne env f s i) := by
  have hrandom (keys : List ℤ) : (handTrack e).Follows (tableRandom env i keys) :=
    Follows.ite (fun _ => follows_pure _) fun _ => follows_get.bind fun _ =>
      (hand_modifyEntity_of_ne hi).bind fun _ => follows_pure _
  refine (hand_getPack i).bind fun p => (hrandom _).bind fun c => ?_
  split
  · exact hand_throw _
  · refine (hand_getPack i).bind fun p => (hand_assertion _ _).bind fun _ => ?_
    exact (hand_stackInsert hi _ _).bind fun _ => hand_stackRemove hi _ _

theorem hand_dealCards (n : ℕ) : (handTrack e).Follows (dealCards env i n) := by
  induction n with
  | zero => exact follows_pure _
  | succ n ih =>
    have hrest : (handTrack e).Follows (do
        if (← getPack i).stackDeal.length = 0 then return
        drawOne env .cardDealPick .deal i
        dealCards env i n) :=
      (hand_getPack i).bind fun _ => Follows.ite (fun _ => follows_pure _) fun _ =>
        (hand_drawOne hi _ _).bind fun _ => ih
    refine (hand_getPack i).bind fun p => ?_
    exact Follows.ite (fun _ => (hand_shuffleStackdiscard hi).bind fun _ => hrest) fun _ => hrest

end Others

end

/-! ### Scripts that answer to nil -/

/-- At nil the script of a buff takes away a layer of it, or raises. -/
theorem BuffFunc.acts_nil {env : Env} {random : World → ℕ → ℕ} {i b : ℤ} {w : World} {f : BuffFunc} {a : Act}
    (ha : a ∈ f.acts env random i b Option.none w) : a = .modifyLayers b (-1) ∨ a = .raise := by
  cases f with
  | multArmor => exact .inl (List.mem_singleton.1 ha)
  | gainBuffOnRoundBegin | gainBuffOnRoundEnd =>
    simp only [BuffFunc.acts] at ha
    split_ifs at ha
    · exact .inr (List.mem_singleton.1 ha)
    · exact .inr (List.mem_singleton.1 ha)
    · cases ha
  | _ => cases ha

/-- At these breakpoints of a card the script of a buff can only raise. -/
theorem BuffFunc.acts_card {env : Env} {random : World → ℕ → ℕ} {i b : ℤ} {w : World} {f : BuffFunc} {a : Act}
    {bp : BreakPoint} (hbp : bp = .cardPlayA ∨ bp = .cardDiscardA ∨ bp = .cardDiscardZ)
    (ha : a ∈ f.acts env random i b (some bp) w) : a = .raise := by
  rcases hbp with rfl | rfl | rfl <;> cases f with
  | gainBuffOnRoundBegin | gainBuffOnRoundEnd =>
    simp only [BuffFunc.acts] at ha
    split_ifs at ha
    · exact List.mem_singleton.1 ha
    · exact List.mem_singleton.1 ha
    · cases ha
  | _ => cases ha

section Scripts

variable {env : Env} {which : ScriptFunc → BuffFunc} {random : World → ℕ → ℕ} {act : Act → Run Unit} {e : ℤ}
variable {T : Track Fault World}

/-- A breakpoint follows a track if the acts of the scripts that answer do. -/
theorem follows_breakpoint_of_acts (hships : env.Ships which random) {i : ℤ} {card : Option ℤ} {bp : Option BreakPoint}
    (hthrow : ∀ f : Fault, ∀ w, T.error f w w)
    (hcard : ∀ c, card = some c → ∀ f pick w,
      ∀ a ∈ env.script f { entity := i, card := card, buff := none, pick := pick, bp := bp } w, T.Follows (act a))
    (hact : ∀ f b w, ∀ a ∈ BuffFunc.acts env random i b bp w f, T.Follows (act a)) :
    T.Follows (breakpoint env act i card none bp) := by
  have hbuffs (pick : Option ℤ) : T.Follows (do (env.pairs (← getPack i).buffs).forM fun b => do
      let w ← get
      if b ∈ (w.pack i).buffs ∧ (w.buffAt b).base.enableScript then
        callScript env act (w.buffAt b).base.scriptFunc
          { entity := i, card := card, buff := some b, pick := pick, bp := bp }) := by
    refine Follows.bind (x := getPack i) (follows_get.bind fun _ => follows_pure _) fun _ => Follows.forM fun b _ => ?_
    refine follows_get.bind fun w => Follows.ite (fun _ => ?_) fun _ => follows_pure _
    unfold callScript
    split
    · exact follows_throw (hthrow _)
    · refine follows_get.bind fun w => Follows.forM fun a ha => ?_
      rw [hships.buff _ _ w b rfl] at ha
      exact hact _ b w a ha
  refine (follows_pure _).bind fun pick => ?_
  cases card with
  | none => exact hbuffs pick
  | some c =>
    refine follows_get.bind fun w => Follows.ite (fun _ => Follows.bind ?_ fun _ => hbuffs pick) fun _ => hbuffs pick
    unfold callScript
    split
    · exact follows_throw (hthrow _)
    · exact follows_get.bind fun w => Follows.forM fun a ha => hcard c rfl _ _ w a ha

section Nil

variable (hships : env.Ships which random)
variable (hlayers : ∀ b, (handTrack e).Follows (act (.modifyLayers b (-1)))) (hraise : (handTrack e).Follows (act .raise))
include hships hlayers hraise

theorem hand_breakpoint_nil (i : ℤ) : (handTrack e).Follows (breakpoint env act i none none none) := by
  refine follows_breakpoint_of_acts hships (fun _ _ => trivial) nofun fun f b w a ha => ?_
  rcases BuffFunc.acts_nil ha with rfl | rfl
  · exact hlayers b
  · exact hraise

theorem hand_buffRemove (i b : ℤ) : (handTrack e).Follows (buffRemove env act i b) := by
  have hnil := hand_breakpoint_nil hships hlayers hraise i
  refine (hand_getPack i).bind fun _ => (hand_assertion _ _).bind fun _ => hnil.bind fun _ => ?_
  refine (hand_getPack i).bind fun _ => Follows.ite (fun _ => hand_throw _) fun _ => ?_
  exact (hand_modifyPack (by intro; rfl) (by intro; rfl)).bind fun _ => hnil

theorem hand_buffAdd (i baseid layers : ℤ) : (handTrack e).Follows (buffAdd env act i baseid layers) := by
  have hnil := hand_breakpoint_nil hships hlayers hraise i
  unfold buffAdd
  split
  · exact hand_throw _
  · refine (hand_getPack i).bind fun _ => Follows.ite (fun _ => follows_pure _) fun _ => follows_get.bind fun w => ?_
    split
    · exact hand_layersAdd _ _
    · refine hnil.bind fun _ => (hand_buffNew i baseid layers).bind fun b => (hand_getPack i).bind fun _ => ?_
      refine (hand_assertion _ _).bind fun _ => ?_
      exact (hand_modifyPack (by intro; rfl) (by intro; rfl)).bind fun _ => hnil

theorem hand_modifyLayers (b layers : ℤ) : (handTrack e).Follows (modifyLayers env act b layers) :=
  (hand_layersAdd b layers).bind fun _ => follows_get.bind fun _ =>
    Follows.ite (fun _ => hand_buffRemove hships hlayers hraise _ b) fun _ => follows_pure _

theorem hand_unrealAttack (i attack : ℤ) : (handTrack e).Follows (unrealAttack env act i attack) := by
  refine follows_get.bind fun w => ?_
  split
  · refine Follows.ite (fun _ => ?_) fun _ => follows_pure _
    exact (hand_modifyLayers hships hlayers hraise _ _).bind fun _ => follows_pure _
  · exact follows_pure _

theorem hand_wearArmor (i attack : ℤ) (b : Option ℤ) : (handTrack e).Follows (wearArmor env act i attack b) := by
  cases b with
  | none => exact follows_pure _
  | some b =>
    refine (hand_layersAdd _ _).bind fun _ => follows_get.bind fun w => ?_
    exact Follows.ite (fun _ => hand_buffRemove hships hlayers hraise i b) fun _ => follows_pure _

theorem hand_breakArmor (i : ℤ) (b : Option ℤ) : (handTrack e).Follows (breakArmor env act i b) := by
  cases b with
  | none => exact follows_pure _
  | some b => exact hand_buffRemove hships hlayers hraise i b

/-- Damage follows a track that is as wide as the one of the hand, if the loss of hp does. -/
theorem follows_damageOne_of_loseHp (hwide : ∀ {α : Type} {x : Run α}, (handTrack e).Follows x → T.Follows x) {fuel : ℕ}
    {i : ℤ} (hlose : ∀ amount, T.Follows (loseHp env act fuel i amount)) (attack : ℤ) (damageType : CardDamageType) :
    T.Follows (damageOne env act fuel i attack damageType) := by
  refine follows_get.bind fun w => Follows.ite (fun _ => follows_pure _) fun _ => ?_
  refine Follows.ite (fun _ => follows_pure _) fun _ => (hwide (hand_arith _)).bind fun ed => ?_
  refine (hwide (hand_unrealAttack hships hlayers hraise _ _)).bind fun attack => Follows.ite (fun _ => ?_) fun _ => ?_
  · refine follows_get.bind fun w => Follows.ite (fun _ => ?_) fun _ => ?_
    · exact (hwide (hand_wearArmor hships hlayers hraise _ _ _)).bind fun _ => follows_pure _
    · refine (hwide (hand_breakArmor hships hlayers hraise _ _)).bind fun _ => ?_
      exact (hlose _).bind fun _ => follows_pure _
  · exact (hlose _).bind fun _ => follows_pure _

end Nil

/-- Taking away layers leaves the hand, to whatever depth scripts answer. -/
theorem hand_perform (hships : env.Ships which random) (n : ℕ) : (∀ b layers, (handTrack e).Follows
    (perform env n (.modifyLayers b layers))) ∧ (handTrack e).Follows (perform env n .raise) := by
  induction n with
  | zero => exact ⟨fun _ _ => hand_throw _, hand_throw _⟩
  | succ n ih => exact ⟨hand_modifyLayers hships (fun b => ih.1 b (-1)) ih.2, hand_throw _⟩

/-! ### A dead entity -/

/-- The act does not put a card into the hand of the entity. -/
def Act.Spares (e : ℤ) : Act → Prop
  | .hpAdd .. | .mpAdd .. | .buffAdd .. | .buffRemove .. | .modifyLayers .. | .damageOne .. | .raise => True
  | .stackHoldNewone i _ => i ≠ e
  | _ => False

/-- The script of a buff on another entity spares the hand. -/
theorem Act.Own.spares {i : ℤ} {a : Act} (h : a.Own i) (hi : i ≠ e) : a.Spares e := by
  cases a with
  | stackHoldNewone j baseid =>
    rw [show j = i from h]
    exact hi
  | _ => exact h

section Dead

variable {fuel : ℕ} (hships : env.Ships which random) (hact : ∀ a : Act, a.Spares e → (deadTrack e).Follows (act a))
variable (hlayers : ∀ b, (handTrack e).Follows (act (.modifyLayers b (-1)))) (hraise : (handTrack e).Follows (act .raise))
include hships hact

theorem dead_roundBegin (i : ℤ) : (deadTrack e).Follows (roundBegin env act i) := by
  by_cases hi : i = e
  · -- The entity is dead, so that its round does not begin.
    subst hi
    refine dead_of_wp fun w hdead => ?_
    rw [roundBegin, wp_bind, wp_get, wp_ite]
    exact ⟨fun _ => ⟨rfl, rfl, id⟩, fun h => absurd hdead h⟩
  · have hbreak (bp : Option BreakPoint) : (deadTrack e).Follows (breakpoint env act i none none bp) :=
      follows_breakpoint_of_acts hships (fun _ _ => trivial) nofun fun f b w a ha => hact a ((f.own_acts ha).spares hi)
    have hdeal : (deadTrack e).Follows (cardDeal env act i) := by
      refine follows_get.bind fun w => Follows.ite (fun _ => follows_pure _) fun _ => (hbreak _).bind fun _ => ?_
      refine (dead_of_hand (hand_getPack i)).bind fun p => (dead_of_hand (hand_assertion _ _)).bind fun _ => ?_
      exact (dead_of_hand (hand_dealCards hi _)).bind fun _ => hbreak _
    refine follows_get.bind fun w => Follows.ite (fun _ => follows_pure _) fun _ => (hbreak _).bind fun _ => ?_
    refine follows_get.bind fun w => (dead_of_hand (hand_assertion _ _)).bind fun _ => ?_
    refine Follows.ite (fun _ => ?_) fun _ => (hbreak _).bind fun _ => hdeal
    exact (dead_of_hand (hand_attributeAdd .mp _ _)).bind fun _ => (hbreak _).bind fun _ => hdeal

theorem dead_beginRound (f : Func) : (deadTrack e).Follows (beginRound env act f) := by
  refine follows_get.bind fun w => (dead_of_hand hand_getMatch).bind fun m => ?_
  split
  · exact dead_of_hand (hand_throw _)
  · refine Follows.ite (fun _ => dead_of_hand (hand_throw _)) fun _ => ?_
    exact (dead_of_hand (hand_record _)).bind fun _ => dead_roundBegin hships hact _

/-- The turn of an entity that has died ends. -/
theorem dead_matchRoundEnd {i : ℤ} {w : World} (hdead : (w.entityAt i).death = true) :
    wp (matchRoundEnd env act fuel i) (fun _ => (deadTrack e).ok w) (fun _ _ => True) w := by
  have hrest : (deadTrack e).Follows (do
      let m ← getMatch
      nextRoundEntity
      record (.turnEnd i (m.isdone || m.roundEntityid ≠ some i))
      beginRound env act .roundEnd) :=
    (dead_of_hand hand_getMatch).bind fun _ => (dead_of_hand hand_nextRoundEntity).bind fun _ =>
      (dead_of_hand (hand_record _)).bind fun _ => dead_beginRound hships hact _
  have hround : roundEnd env act fuel i w = .ok () w := by
    rw [roundEnd, bind_of_ok (x := get) rfl, if_pos hdead]
    rfl
  rw [matchRoundEnd, wp_bind, wp_getMatch]
  refine ⟨fun m _ => ?_, fun _ => trivial⟩
  rw [wp_bind, wp_assertion]
  refine ⟨fun _ => ?_, fun _ => trivial⟩
  rw [wp_ite]
  refine ⟨fun _ => (deadTrack e).refl w, fun _ => ?_⟩
  rw [wp_ite]
  refine ⟨fun _ => ?_, fun _ => hrest w⟩
  rw [wp_bind, wp_ok hround]
  exact hrest w

theorem dead_dieEntity (i : ℤ) : (deadTrack e).Follows (dieEntity env act fuel i) := by
  intro w
  rw [dieEntity, wp_bind, wp_get, wp_bind, wp_getMatch]
  refine ⟨fun m _ => ?_, fun _ => trivial⟩
  rw [wp_bind, wp_assertion]
  refine ⟨fun _ => ?_, fun _ => trivial⟩
  rw [wp_bind, wp_assertion]
  refine ⟨fun _ => ?_, fun _ => trivial⟩
  rw [wp_bind, wp_assertion]
  refine ⟨fun hdead => ?_, fun _ => trivial⟩
  rw [wp_ite]
  refine ⟨fun _ => dead_of_hand (hand_done _) w, fun _ => ?_⟩
  rw [wp_ite]
  exact ⟨fun _ => dead_matchRoundEnd hships hact hdead, fun _ => (deadTrack e).refl w⟩

theorem dead_toDie (i : ℤ) : (deadTrack e).Follows (toDie env act fuel i) := by
  have hdeath : (handTrack e).Follows (modifyEntity i fun x => { x with death := true }) :=
    hand_modifyEntity (fun _ => rfl) (fun _ => rfl) fun _ _ => rfl
  refine follows_get.bind fun w => Follows.ite (fun _ => follows_pure _) fun _ => ?_
  refine (dead_of_hand hdeath).bind fun _ => (dead_of_hand (hand_record _)).bind fun _ => ?_
  split
  · exact dead_of_hand (hand_throw _)
  · exact Follows.ite (fun _ => dead_dieEntity hships hact i) fun _ => follows_pure _

include hlayers hraise

theorem dead_hpAdd (i value : ℤ) : (deadTrack e).Follows (hpAdd env act fuel i value) := by
  have hdie : (deadTrack e).Follows (do if (← getPack i).hp = 0 then toDie env act fuel i) :=
    (dead_of_hand (hand_getPack i)).bind fun _ => Follows.ite (fun _ => dead_toDie hships hact i) fun _ => follows_pure _
  have hnil : (deadTrack e).Follows (breakpoint env act i none none none) :=
    dead_of_hand (hand_breakpoint_nil hships hlayers hraise i)
  refine Follows.ite (fun _ => follows_pure _) fun _ => ?_
  refine (dead_of_hand (hand_modifyPack (by intro; rfl) (by intro; rfl))).bind fun _ => ?_
  exact Follows.ite (fun _ => hnil.bind fun _ => hdie) fun _ => hdie

theorem dead_damageOne (i attack : ℤ) (damageType : CardDamageType) :
    (deadTrack e).Follows (damageOne env act fuel i attack damageType) :=
  follows_damageOne_of_loseHp hships hlayers hraise dead_of_hand (fun _ => Follows.ite (fun _ => follows_pure _) fun _ =>
    dead_hpAdd hships hact hlayers hraise i _) attack damageType

theorem dead_performWith {a : Act} (ha : a.Spares e) : (deadTrack e).Follows (performWith env act fuel a) := by
  cases a with
  | hpAdd i value => exact dead_hpAdd hships hact hlayers hraise i value
  | mpAdd i value => exact dead_of_hand (hand_attributeAdd .mp i value)
  | buffAdd i baseid layers => exact dead_of_hand (hand_buffAdd hships hlayers hraise i baseid layers)
  | buffRemove i b => exact dead_of_hand (hand_buffRemove hships hlayers hraise i b)
  | modifyLayers b layers => exact dead_of_hand (hand_modifyLayers hships hlayers hraise b layers)
  | stackHoldNewone i baseid => exact dead_of_hand (hand_stackHoldNewone ha baseid)
  | damageOne i attack damageType => exact (dead_damageOne hships hact hlayers hraise i attack damageType).map _
  | raise => exact dead_of_hand (hand_throw _)
  | _ => exact ha.elim

end Dead

/-- What scripts do leaves the hand of an entity that is dead, to whatever depth they answer. -/
theorem dead_perform (hships : env.Ships which random) (n : ℕ) {a : Act} (ha : a.Spares e) :
    (deadTrack e).Follows (perform env n a) := by
  induction n generalizing a with
  | zero => exact dead_of_hand (hand_throw _)
  | succ n ih =>
    obtain ⟨hlayers, hraise⟩ := hand_perform (e := e) hships n
    exact dead_performWith hships (fun _ => ih) (fun b => hlayers b (-1)) hraise ha

/-! ### The entity that discards -/

section Discard

variable (hships : env.Ships which random) (n : ℕ)
include hships

/-- If the entity dies, what follows leaves the hand of a dead entity. -/
theorem hand_toDie {fuel : ℕ} : (handTrack e).Follows (toDie env (perform env n) fuel e) := by
  intro w
  rw [toDie, wp_bind, wp_get, wp_ite]
  refine ⟨fun _ => (handTrack e).refl w, fun _ => ?_⟩
  rw [wp_bind, modifyEntity, wp_modify, wp_bind]
  -- The world in which the entity is dead, before anybody has been told.
  set w' := w.setEntity e { w.entityAt e with death := true }
  have hdead : (w'.entityAt e).death = true := by rw [World.entityAt_setEntity_self]
  have hkept : HandKept e w w' := by
    refine ⟨?_, ?_, fun _ => hdead⟩
    · rw [World.pack, World.entityAt_setEntity_self]
      rfl
    · rw [World.pack, World.entityAt_setEntity_self]
      rfl
  have hrecord : wp (record (.died e (w.late e))) (fun _ => HandKept e w') (fun _ _ => True) w' := hand_record _ w'
  refine wp_mono hrecord (fun _ w'' h => ?_) fun _ _ _ => trivial
  split
  · trivial
  · rw [wp_ite]
    refine ⟨fun _ => ?_, fun _ => hkept.trans h⟩
    have hdie : (deadTrack e).Follows (dieEntity env (perform env n) fuel e) :=
      dead_dieEntity hships (fun _ => dead_perform hships n) e
    exact wp_mono (hdie w'') (fun _ _ h' => hkept.trans (h.trans (h' (h.dead hdead)))) fun _ _ _ => trivial

theorem hand_damageOne {fuel : ℕ} (attack : ℤ) (damageType : CardDamageType) :
    (handTrack e).Follows (damageOne env (perform env n) fuel e attack damageType) := by
  obtain ⟨hlayers, hraise⟩ := hand_perform (e := e) hships n
  have hdie : (handTrack e).Follows (do if (← getPack e).hp = 0 then toDie env (perform env n) fuel e) :=
    (hand_getPack e).bind fun _ => Follows.ite (fun _ => hand_toDie hships n) fun _ => follows_pure _
  have hnil := hand_breakpoint_nil hships (fun b => hlayers b (-1)) hraise e
  have hlose (amount : ℤ) : (handTrack e).Follows (loseHp env (perform env n) fuel e amount) := by
    refine Follows.ite (fun _ => follows_pure _) fun _ => Follows.ite (fun _ => follows_pure _) fun _ => ?_
    refine (hand_modifyPack (by intro; rfl) (by intro; rfl)).bind fun _ => ?_
    exact Follows.ite (fun _ => hnil.bind fun _ => hdie) fun _ => hdie
  exact follows_damageOne_of_loseHp hships (fun b => hlayers b (-1)) hraise id hlose attack damageType

/-- **The breakpoints of a discard leave the hand of the entity**, to whatever depth scripts answer. -/
theorem hand_breakpoint_discard {cards : ScriptFunc → CardFunc} (hcards : env.ShipsCards cards) (c : ℤ) {bp : BreakPoint}
    (hbp : bp = .cardDiscardA ∨ bp = .cardDiscardZ) :
    (handTrack e).Follows (breakpoint env (perform env n) e (some c) none (some bp)) := by
  obtain ⟨-, hraise⟩ := hand_perform (e := e) hships n
  refine follows_breakpoint_of_acts hships (fun _ _ => trivial) (fun c hc f pick w a ha => ?_) fun f b w a ha => ?_
  · cases hc
    have hne : bp ≠ .cardPlayZ := by
      rcases hbp with rfl | rfl
      · decide
      · decide
    rw [hcards f _ w c bp rfl rfl rfl hne] at ha
    unfold CardFunc.acts at ha
    split_ifs at ha
    · rw [List.mem_singleton.1 ha]
      cases n with
      | zero => exact hand_throw _
      | succ n => exact (hand_damageOne hships n _ _).map _
    · cases ha
  · rw [BuffFunc.acts_card (.inr hbp) ha]
    exact hraise

/-- Nobody answers before a card is played, but the script of a buff may raise. -/
theorem idle_breakpoint_playA {cards : ScriptFunc → CardFunc} (hcards : env.ShipsCards cards) (c : ℤ) :
    idleTrack.Follows (breakpoint env (perform env n) e (some c) none (some .cardPlayA)) := by
  refine follows_breakpoint_of_acts hships (fun _ _ => trivial) (fun c hc f pick w a ha => ?_) fun f b w a ha => ?_
  · cases hc
    rw [hcards f _ w c _ rfl rfl rfl (by decide), CardFunc.acts, if_neg (fun h => absurd h.2 (by decide))] at ha
    cases ha
  · rw [BuffFunc.acts_card (.inl rfl) ha]
    cases n with
    | zero => exact follows_throw fun _ => trivial
    | succ n => exact follows_throw fun _ => trivial

end Discard

end Scripts

end Slam.Game
