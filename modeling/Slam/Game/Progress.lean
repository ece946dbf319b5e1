import Slam.Game.Discard
import Slam.Game.Play
import Slam.Game.Settlement

/-!
# The turn of a monster

`Monster:update` plays a random card of the hand, and discards it if it is still there afterwards; with no card left
it ends the turn. So each update should end the turn or make the hand smaller. `monster_progress_iff` says for every
world and every hand when an update returns and does so.

The discard is not a passive one, so that a card which can be neither played nor discarded stays in the hand, and the
monster may pick it again and again. Apart from that an update makes progress if the functions it calls return: before
`CARD_PLAY_Z` no script that is shipped does anything (`idle_breakpoint_playA`), so that the discard meets the world
in which the card was refused.
-/

namespace Slam.Game

open Raising Track

/-- It is the turn of a living entity in a match that is not done. -/
structure World.TurnOf (w : World) (e : ℤ) (m : Match) : Prop where
  sceneMatch : w.sceneMatch = some m
  isdone : m.isdone = false
  turn : m.roundEntityid = some e
  member : e ∈ m.entities
  living : (w.entityAt e).death = false

/-- What `card_play` checks: the card may be played, the career fits and there is mp. -/
structure World.Playable (w : World) (e c : ℤ) : Prop where
  enable : (w.cardAt c).base.enablePlay = true
  career : (w.cardAt c).base.requireCareer = 0 ∨ (w.cardAt c).base.requireCareer = (w.entityAt e).base.career
  mp : (w.cardAt c).base.costMp ≤ (w.pack e).mp

/-- A turn of the entity has ended since then. -/
def TurnEnded (e : ℤ) (w w' : World) : Prop := ∃ late, .turnEnd e late ∈ w'.recordedSince w

/-- The match is done. -/
def World.MatchOver (w : World) : Prop := ∃ m, w.sceneMatch = some m ∧ m.isdone = true

section Monster

variable (env : Env) (act : Act → Run Unit) (fuel : ℕ)

/-- `Monster:update` returns and has ended the turn or the match, or the card that it picked is not in the hand any
more. -/
def Progress (ready : ℤ → Bool) (e : ℤ) (w : World) : Prop :=
  wp (monsterUpdate env act fuel ready e) (fun _ w' => TurnEnded e w w' ∨ w'.MatchOver ∨
    ∃ c w₀, tableRandom env e (w.pack e).stackHold w = .ok (some c) w₀ ∧ c ∉ (w'.pack e).stackHold) (fun _ _ => False) w

/-- What an update needs to make progress. With no card left `Match.round_end` returns. Otherwise, in the world `w₀`
in which the card `c` has been picked: the breakpoint before a card is played returns; if the card can be played then
the mp is not negative and the scripts that answer to the card return; if it cannot, then it may be discarded and
this returns. -/
def Unstuck (e : ℤ) (w : World) : Prop :=
  ((w.pack e).stackHold = [] → Returns (matchRoundEnd env act fuel e) w) ∧
  ∀ c w₀, tableRandom env e (w.pack e).stackHold w = .ok (some c) w₀ →
    ((w.cardAt c).base.enablePlay = true → Returns (playA env act e c none) w₀) ∧
    (w.Playable e c → 0 ≤ (w.pack e).mp ∧ Returns (playZ env act e c none) ((w₀.charge e c).handLeft e c)) ∧
    (¬ w.Playable e c → (w.cardAt c).base.enableDiscard = true ∧ Returns (cardDiscard env act e c false) w₀)

variable {env act fuel} {e c : ℤ} {w : World} {m : Match} {ready : ℤ → Bool}

/-! ### The end of a turn -/

theorem turnEnded_of_trace {w' : World} (rs : List Record) (late : Bool) (h : w'.trace = w.trace ++ rs)
    (hmem : .turnEnd e late ∈ rs) : TurnEnded e w w' := by
  refine ⟨late, ?_⟩
  rw [World.recordedSince, h, List.drop_left]
  exact hmem

/-- A turn that is handed over has ended. -/
theorem wp_matchRoundEnd_turnEnded (hact : ∀ f call w, ∀ a ∈ env.script f call w, (logicTrack true).Follows (act a))
    (hturn : w.TurnOf e m) : wp (matchRoundEnd env act fuel e) (fun _ w' => TurnEnded e w w') (fun _ _ => True) w := by
  have hover (w₁ : World) (rs : List Record) (htrace : w₁.trace = w.trace ++ rs) : wp (do
      let m ← getMatch
      nextRoundEntity
      record (.turnEnd e (m.isdone || m.roundEntityid ≠ some e))
      beginRound env act .roundEnd : Run Unit) (fun _ w' => TurnEnded e w w') (fun _ _ => True) w₁ := by
    rw [wp_bind, wp_getMatch]
    refine ⟨fun m₁ hm₁ => ?_, fun _ => trivial⟩
    rw [wp_bind]
    refine wp_mono (wp_nextRoundEntity hm₁) ?_ fun _ _ _ => trivial
    rintro _ w₂ ⟨i, e', hnext, rfl⟩
    rw [wp_bind, wp_record]
    refine wp_beginRound (World.sceneMatch_turnTo hm₁ i e') rfl (World.nextTurn_some hnext).1 ?_
    rw [World.note_note]
    refine wp_mono (follows_roundBegin hact e' _) (fun _ w₃ hok => ?_) fun _ _ _ => trivial
    obtain ⟨rs', hrs', -⟩ := hok.1.timely
    refine turnEnded_of_trace (rs ++ [World.endRecord m₁ e, w₁.beginRecord m₁ e'] ++ rs')
      (m₁.isdone || m₁.roundEntityid ≠ some e) ?_ ?_
    · rw [hrs']
      show w₁.trace ++ _ ++ _ = _
      rw [htrace]
      simp only [List.append_assoc]
      rfl
    · exact List.mem_append_left _ (List.mem_append_right _ (List.mem_cons_self ..))
  rw [matchRoundEnd, wp_bind, wp_getMatch]
  refine ⟨fun m' hm' => ?_, fun _ => trivial⟩
  obtain rfl : m = m' := Option.some.inj (hturn.sceneMatch.symm.trans hm')
  rw [wp_bind, wp_assertion]
  refine ⟨fun _ => ?_, fun _ => trivial⟩
  rw [wp_ite]
  refine ⟨fun h => absurd hturn.turn h, fun _ => ?_⟩
  rw [wp_ite]
  refine ⟨fun _ => ?_, fun h => absurd hturn.member h⟩
  rw [wp_bind]
  refine wp_mono (follows_roundEnd hact e w) (fun _ w₁ hok => ?_) fun _ _ _ => trivial
  obtain ⟨rs, hrs, -⟩ := hok.1.timely
  exact hover w₁ rs hrs

/-! ### The parts of an update -/

theorem monsterUpdate_of_empty (hturn : w.TurnOf e m) (hready : ready e = true) (hempty : (w.pack e).stackHold = []) :
    monsterUpdate env act fuel ready e w = matchRoundEnd env act fuel e w := by
  rw [monsterUpdate, bind_of_ok (x := get) rfl]
  simp only [hturn.sceneMatch, hturn.isdone, hturn.turn, hturn.living, hready, hempty, Bool.false_eq_true, if_false,
    ne_eq, not_true, Bool.true_eq_false, List.length_nil, if_true]

/-- The card that has been picked is played, and discarded if it is still in the hand. -/
theorem monsterUpdate_of_pick (hturn : w.TurnOf e m) (hready : ready e = true) {w₀ : World}
    (hpick : tableRandom env e (w.pack e).stackHold w = .ok (some c) w₀) (hc : c ∈ (w₀.pack e).stackHold) :
    monsterUpdate env act fuel ready e w = (do
      discard <| matchCardPlay env act e c none
      if c ∈ (← getPack e).stackHold then matchCardDiscard env act e c : Run Unit) w₀ := by
  have hne : ¬ (w.pack e).stackHold.length = 0 := by
    intro hzero
    rw [tableRandom, if_pos hzero] at hpick
    cases hpick
  rw [monsterUpdate, bind_of_ok (x := get) rfl]
  simp only [hturn.sceneMatch, hturn.isdone, hturn.turn, hturn.living, hready, hne, Bool.false_eq_true, if_false,
    ne_eq, not_true, Bool.true_eq_false]
  rw [bind_of_ok hpick]
  exact (bind_of_ok (show getPack e w₀ = .ok (w₀.pack e) w₀ from rfl)).trans (bind_of_ok (assertion_apply hc _))

theorem World.TurnOf.getMatch (hturn : w.TurnOf e m) : getMatch w = .ok m w := by
  rw [Game.getMatch, bind_of_ok (show (get : Run World) w = .ok w w from rfl)]
  simp only [hturn.sceneMatch]
  rfl

theorem matchCardDiscard_of_turn (hturn : w.TurnOf e m) :
    matchCardDiscard env act e c w = cardDiscard env act e c false w := by
  rw [matchCardDiscard, bind_of_ok hturn.getMatch, bind_of_ok (assertion_apply hturn.isdone _),
    bind_of_ok (assertion_apply hturn.turn _), if_neg (not_not.2 hturn.member)]

/-- A card that cannot be played is refused. -/
theorem matchCardPlay_of_not_playable (hturn : w.TurnOf e m) (hc : c ∈ (w.pack e).stackHold)
    (hA : (w.cardAt c).base.enablePlay = true → playA env act e c none w = .ok () w) (h : ¬ w.Playable e c) :
    matchCardPlay env act e c none w = .ok false w := by
  by_cases henable : (w.cardAt c).base.enablePlay = true
  · have htries : w.Tries e c :=
      ⟨⟨m, hturn.sceneMatch, hturn.isdone, hturn.turn, hturn.member⟩, hturn.living, hc, henable⟩
    rw [matchCardPlay_of_tries htries, bind_of_ok (hA henable), playCharged, bind_of_ok (x := get) rfl]
    split_ifs with hcareer hmp
    · rfl
    · rfl
    all_goals
      refine absurd ⟨henable, ?_, not_lt.1 hmp⟩ h
      by_contra hne
      exact hcareer (not_or.1 hne)
  · rw [matchCardPlay, bind_of_ok hturn.getMatch, bind_of_ok (assertion_apply hturn.isdone _),
      bind_of_ok (assertion_apply hturn.turn _), if_neg (not_not.2 hturn.member)]
    show cardPlay env act e c none w = _
    rw [cardPlay, bind_of_ok (x := get) rfl, if_neg (by simp [hturn.living]), if_neg (not_not.2 hc),
      if_pos (Bool.eq_false_of_not_eq_true henable)]
    rfl

/-- A card that can be played is settled, if the mp is not negative. -/
theorem matchCardPlay_of_playable (hturn : w.TurnOf e m) (hc : c ∈ (w.pack e).stackHold)
    (hA : playA env act e c none w = .ok () w) (h : w.Playable e c) (hmp : 0 ≤ (w.pack e).mp) :
    matchCardPlay env act e c none w =
      (settleCard e c (playZ env act e c none) >>= fun _ => pure true) (w.charge e c) := by
  have htries : w.Tries e c :=
    ⟨⟨m, hturn.sceneMatch, hturn.isdone, hturn.turn, hturn.member⟩, hturn.living, hc, h.enable⟩
  rw [matchCardPlay_of_tries htries, bind_of_ok hA, playCharged_of_accepts ⟨h.career, h.mp, hmp⟩]

/-- A card that can be played with a negative mp is not: `mp_add` raises. -/
theorem matchCardPlay_of_negative (hturn : w.TurnOf e m) (hc : c ∈ (w.pack e).stackHold)
    (hA : playA env act e c none w = .ok () w) (h : w.Playable e c) (hmp : (w.pack e).mp < 0) :
    ∃ f w', matchCardPlay env act e c none w = .error f w' := by
  have htries : w.Tries e c :=
    ⟨⟨m, hturn.sceneMatch, hturn.isdone, hturn.turn, hturn.member⟩, hturn.living, hc, h.enable⟩
  have hcareer : ¬ ((w.cardAt c).base.requireCareer ≠ 0 ∧
      (w.cardAt c).base.requireCareer ≠ (w.entityAt e).base.career) := fun hne => h.career.elim hne.1 hne.2
  have hcost : ¬ -(w.cardAt c).base.costMp = 0 := by have := h.mp; omega
  have hraise : wp (playCharged env act e c none) (fun _ _ => False) (fun _ _ => True) w := by
    rw [playCharged, wp_bind, wp_get, if_neg hcareer, if_neg (not_lt.2 h.mp), wp_bind, mpAdd, attributeAdd, if_neg hcost,
      wp_bind, wp_getPack, wp_bind, wp_assertion]
    exact ⟨fun hnonneg => absurd hnonneg (not_le.2 hmp), fun _ => trivial⟩
  obtain ⟨f, w', herror, -⟩ := exists_error_of_wp hraise
  exact ⟨f, w', by rw [matchCardPlay_of_tries htries, bind_of_ok hA, herror]⟩

/-! ### Progress -/

section Shipped

variable {which : ScriptFunc → BuffFunc} {random : World → ℕ → ℕ} {cards : ScriptFunc → CardFunc}
variable (hships : env.Ships which random) (hcards : env.ShipsCards cards) (n : ℕ)
include hships hcards

/-- The breakpoint before a card is played changes nothing if it returns. -/
theorem playA_eq_of_returns (h : Returns (playA env (perform env n) e c none) w) :
    playA env (perform env n) e c none w = .ok () w := by
  have hidle : wp (playA env (perform env n) e c none) (fun _ w' => w' = w) (fun _ _ => True) w := by
    rw [playA, whileLocked, wp_bind, wp_modify, wp_bind]
    refine wp_mono (idle_breakpoint_playA hships n hcards c _) (fun _ w' hw' => ?_) fun _ _ _ => trivial
    rw [wp_modify, show w' = _ from hw']
    rfl
  exact eq_ok_of_wp (wp_mono (wp_and h hidle) (fun _ _ h => h.2) fun _ _ h => h.1)

/-- What an update does with the card that it has picked. -/
theorem wp_picked_iff (hw : w.Stacked) (hturn : w.TurnOf e m) (hc : c ∈ (w.pack e).stackHold) {Q : World → Prop}
    (hleft : ∀ w' : World, c ∉ (w'.pack e).stackHold → Q w') (hstays : ¬ Q w) :
    wp (do
        discard <| matchCardPlay env (perform env n) e c none
        if c ∈ (← getPack e).stackHold then matchCardDiscard env (perform env n) e c : Run Unit)
      (fun _ => Q) (fun _ _ => False) w ↔
    ((w.cardAt c).base.enablePlay = true → Returns (playA env (perform env n) e c none) w) ∧
    (w.Playable e c → 0 ≤ (w.pack e).mp ∧ Returns (playZ env (perform env n) e c none) ((w.charge e c).handLeft e c)) ∧
    (¬ w.Playable e c → (w.cardAt c).base.enableDiscard = true ∧ Returns (cardDiscard env (perform env n) e c false) w) := by
  rw [wp_bind, wp_discard]
  -- What is left to do once the card has been played or refused.
  have hrest (w' : World) : wp (do if c ∈ (← getPack e).stackHold then matchCardDiscard env (perform env n) e c : Run Unit)
      (fun _ => Q) (fun _ _ => False) w' ↔ (c ∈ (w'.pack e).stackHold →
        wp (matchCardDiscard env (perform env n) e c) (fun _ => Q) (fun _ _ => False) w') ∧
        (c ∉ (w'.pack e).stackHold → Q w') := by
    rw [wp_bind, wp_getPack, wp_ite]
    rfl
  by_cases hA : (w.cardAt c).base.enablePlay = true → Returns (playA env (perform env n) e c none) w
  · by_cases hplay : w.Playable e c
    · have hquiet := playA_eq_of_returns hships hcards n (hA hplay.enable)
      by_cases hmp : 0 ≤ (w.pack e).mp
      · rw [wp_congr (matchCardPlay_of_playable hturn hc hquiet hplay hmp), wp_bind]
        have hhold : ((w.charge e c).pack e).stackHold = (w.pack e).stackHold :=
          (congrArg Pack.stackHold (w.charge_table e c e) :)
        have hc' : c ∈ ((w.charge e c).pack e).stackHold := by rwa [hhold]
        have hstacked := hw.charge e c
        cases hZ : playZ env (perform env n) e c none ((w.charge e c).handLeft e c) with
        | ok a v =>
          have hreturns : Returns (playZ env (perform env n) e c none) ((w.charge e c).handLeft e c) := (wp_ok hZ).2 trivial
          refine iff_of_true ?_ ⟨hA, fun _ => ⟨hmp, hreturns⟩, fun h => absurd hplay h⟩
          refine wp_mono (wp_settleCard_of_returns (script_follows_true env n) hstacked hc' hreturns) ?_ fun _ _ h => h
          rintro _ w' ⟨-, hgone⟩
          exact (hrest w').2 ⟨fun h => absurd h hgone, fun h => hleft w' h⟩
        | error f v =>
          refine iff_of_false (fun h => ?_) fun h => (wp_error hZ).1 (h.2.1 hplay).2
          obtain ⟨hleave, -, -⟩ := hstacked.handLeft hc'
          rw [settleCard, wp_bind, wp_ok hleave, wp_bind, wp_error hZ] at h
          exact h
      · obtain ⟨f, w', herror⟩ := matchCardPlay_of_negative hturn hc hquiet hplay (not_le.1 hmp)
        rw [wp_error herror]
        exact iff_of_false id fun h => hmp (h.2.1 hplay).1
    · have hrefused := matchCardPlay_of_not_playable hturn hc
        (fun henable => playA_eq_of_returns hships hcards n (hA henable)) hplay
      rw [wp_ok hrefused, hrest w, wp_congr (matchCardDiscard_of_turn hturn)]
      cases hallowed : (w.cardAt c).base.enableDiscard with
      | true =>
        have hkept (c : ℤ) (bp : BreakPoint) (hbp : bp = .cardDiscardA ∨ bp = .cardDiscardZ) :
            (handTrack e).Follows (breakpoint env (perform env n) e (some c) none (some bp)) :=
          hand_breakpoint_discard hships n hcards c hbp
        constructor
        · intro h
          exact ⟨hA, fun h => absurd h hplay, fun _ => ⟨rfl, wp_mono (h.1 hc) (fun _ _ _ => trivial) fun _ _ h => h⟩⟩
        · intro h
          refine ⟨fun _ => ?_, fun h => absurd hc h⟩
          have hboth := wp_and (h.2.2 hplay).2 (wp_cardDiscard_hold hkept hturn.living hc (.inl hallowed))
          refine wp_mono hboth (fun _ w' hw' => hleft w' ?_) fun _ _ h => h.1
          rw [hw'.2.1]
          exact fun h => List.Nodup.not_mem_erase (hw e).nodup_hold h
      | false =>
        refine iff_of_false (fun h => ?_) fun h => Bool.noConfusion (h.2.2 hplay).1
        have hnothing : cardDiscard env (perform env n) e c false w = .ok () w := by
          rw [cardDiscard, bind_of_ok (x := get) rfl, if_neg (by simp [hturn.living]), if_neg (not_not.2 hc),
            if_pos ⟨hallowed, rfl⟩]
          rfl
        exact hstays ((wp_ok hnothing).1 (h.1 hc))
  · refine iff_of_false (fun h => ?_) fun h => hA h.1
    rw [Classical.not_imp] at hA
    have htries : w.Tries e c :=
      ⟨⟨m, hturn.sceneMatch, hturn.isdone, hturn.turn, hturn.member⟩, hturn.living, hc, hA.1⟩
    cases hplay : playA env (perform env n) e c none w with
    | ok a v => exact hA.2 ((wp_ok hplay).2 trivial)
    | error f v =>
      have herror : matchCardPlay env (perform env n) e c none w = .error f v := by
        rw [matchCardPlay_of_tries htries, bind_of_error hplay]
      rw [wp_error herror] at h
      exact h

end Shipped

/-- Drawing a random number changes neither the turn nor the cards. -/
theorem World.TurnOf.reseed (hturn : w.TurnOf e m) (k : ℕ) : (w.reseed e k).TurnOf e m := by
  refine ⟨hturn.sceneMatch, hturn.isdone, hturn.turn, hturn.member, ?_⟩
  rw [World.reseed, World.entityAt_setEntity_self]
  exact hturn.living

theorem World.playable_reseed (k : ℕ) : (w.reseed e k).Playable e c ↔ w.Playable e c := by
  have hcareer : ((w.reseed e k).entityAt e).base = (w.entityAt e).base := by
    rw [World.reseed, World.entityAt_setEntity_self]
  constructor
  · rintro ⟨h₁, h₂, h₃⟩
    rw [hcareer] at h₂
    rw [World.pack_reseed] at h₃
    exact ⟨h₁, h₂, h₃⟩
  · rintro ⟨h₁, h₂, h₃⟩
    rw [← hcareer] at h₂
    rw [← World.pack_reseed w e e k] at h₃
    exact ⟨h₁, h₂, h₃⟩

end Monster

/-- **A monster makes progress exactly if it is not stuck**: for every world with the cards where they should be in
which it is the turn of a living monster, and to whatever depth scripts answer, `Monster:update` returns and has ended
the turn or the match or got rid of the card that it picked, if and only if it has no card left and `Match.round_end`
returns, or the card that it picks can be played and its scripts return, or it can be discarded and this returns. -/
theorem monster_progress_iff {env : Env} {which : ScriptFunc → BuffFunc} {random : World → ℕ → ℕ}
    {cards : ScriptFunc → CardFunc} (hships : env.Ships which random) (hcards : env.ShipsCards cards) (n : ℕ)
    {ready : ℤ → Bool} {e : ℤ} {w : World} {m : Match} (hw : w.Stacked) (hturn : w.TurnOf e m) (hready : ready e = true) :
    Progress env (perform env n) n ready e w ↔ Unstuck env (perform env n) n e w := by
  by_cases hempty : (w.pack e).stackHold = []
  · have hnone : ∀ c w₀, tableRandom env e (w.pack e).stackHold w ≠ .ok (some c) w₀ := by
      intro c w₀ hpick
      rw [hempty] at hpick
      cases hpick
    rw [Progress, wp_congr (monsterUpdate_of_empty hturn hready hempty)]
    constructor
    · intro h
      exact ⟨fun _ => wp_mono h (fun _ _ _ => trivial) fun _ _ h => h, fun c w₀ hpick => absurd hpick (hnone c w₀)⟩
    · intro h
      have hended : wp (matchRoundEnd env (perform env n) n e) (fun _ w' => TurnEnded e w w') (fun _ _ => True) w :=
        wp_matchRoundEnd_turnEnded (script_follows_true env n) hturn
      exact wp_mono (wp_and (h.1 hempty) hended) (fun _ _ h => .inl h.2) fun _ _ h => h.1
  · obtain ⟨c, hc, hpick⟩ := tableRandom_apply env (e := e) hempty w
    have hpicked : ∀ c' w₀, tableRandom env e (w.pack e).stackHold w = .ok (some c') w₀ →
        c' = c ∧ w₀ = w.reseed e (w.pack e).stackHold.length := by
      intro c' w₀ hpick'
      rw [hpick] at hpick'
      cases hpick'
      exact ⟨rfl, rfl⟩
    set w₀ := w.reseed e (w.pack e).stackHold.length with hw₀
    have hturn₀ : w₀.TurnOf e m := hturn.reseed _
    have hc₀ : c ∈ (w₀.pack e).stackHold := by rwa [hw₀, World.pack_reseed]
    have hstacked : w₀.Stacked := fun i => by
      rw [hw₀, World.pack_reseed]
      exact hw i
    rw [Progress, wp_congr (monsterUpdate_of_pick hturn hready hpick hc₀),
      wp_picked_iff hships hcards n hstacked hturn₀ hc₀ (fun w' hgone => .inr (.inr ⟨c, w₀, hpick, hgone⟩)) ?_]
    · have hmp : (w₀.pack e).mp = (w.pack e).mp := by rw [hw₀, World.pack_reseed]
      rw [World.playable_reseed, hmp]
      constructor
      · intro h
        refine ⟨fun h => absurd h hempty, fun c' w' hpick' => ?_⟩
        obtain ⟨rfl, rfl⟩ := hpicked c' w' hpick'
        exact h
      · exact fun h => h.2 c w₀ hpick
    · -- Nothing has been recorded, the match goes on, and the card is in the hand.
      rintro (⟨late, hlate⟩ | ⟨m', hm', hdone⟩ | ⟨c', w', hpick', hgone⟩)
      · have htrace : w₀.recordedSince w = [] := List.drop_length ..
        rw [htrace] at hlate
        cases hlate
      · obtain rfl : m = m' := Option.some.inj (hturn₀.sceneMatch.symm.trans hm')
        rw [hturn.isdone] at hdone
        cases hdone
      · obtain ⟨rfl, -⟩ := hpicked c' w' hpick'
        exact hgone hc₀

/-- The turn of the monster 2, which has one card with the given row in its hand. -/
def lastCard (base : CardBase) : World where
  entityAt i :=
    { side := if i = 1 then .allies else .enemy
      pack := { hp := 9, maxhp := 9, stackHold := if i = 2 then [5] else [], dealt := if i = 2 then [5] else [] } }
  cardAt _ := { baseid := 1, base := base }
  nextCard := 6
  scene := some { sceneMatch := some {
    isstart := true, entities := [1, 2], roundList := [1, 2], roundEntityid := some 2
    roundIterator := some 2, roundListSize := some 2 } }

theorem lastCard_stacked (base : CardBase) : (lastCard base).Stacked := by
  intro e
  by_cases he : e = 2
  · subst he
    have hpack : (lastCard base).pack 2 = { hp := 9, maxhp := 9, stackHold := [5], dealt := [5] } := rfl
    rw [hpack, show (lastCard base).nextCard = 6 from rfl]
    exact ⟨by decide, by decide, by decide⟩
  · refine Pack.Conserved.of_nil ?_ ?_ ?_ ?_ _ <;> simp [lastCard, World.pack, Pack.inPlay, he]

theorem lastCard_turnOf (base : CardBase) : ∃ m, (lastCard base).TurnOf 2 m :=
  ⟨_, rfl, rfl, rfl, by decide, rfl⟩

/-- A card that can be played leaves the hand. -/
theorem monster_progress_lastCard : bloodEnv.Ships (fun _ => .none) (fun _ _ => 1) ∧
    (bloodEnv.ShipsCards fun _ => .blood) ∧ (lastCard {}).Stacked ∧ (∃ m, (lastCard {}).TurnOf 2 m) ∧
    Progress bloodEnv (perform bloodEnv 100) 100 (fun _ => true) 2 (lastCard {}) := by
  obtain ⟨m, hturn⟩ := lastCard_turnOf {}
  refine ⟨bloodEnv_ships, bloodEnv_shipsCards, lastCard_stacked {}, ⟨m, hturn⟩,
    (monster_progress_iff bloodEnv_ships bloodEnv_shipsCards 100 (lastCard_stacked {}) hturn rfl).2 ⟨nofun, ?_⟩⟩
  intro c w₀ hpick
  rw [show tableRandom bloodEnv 2 ((lastCard {}).pack 2).stackHold (lastCard {}) =
    .ok (some 5) ((lastCard {}).reseed 2 1) from rfl] at hpick
  cases hpick
  refine ⟨fun _ => by decide +kernel, fun _ => by decide +kernel, fun h => absurd ⟨rfl, .inl rfl, by decide +kernel⟩ h⟩

/-- A card that can be neither played nor discarded stays in the hand, and the turn goes on. -/
theorem not_monster_progress_lastCard : bloodEnv.Ships (fun _ => .none) (fun _ _ => 1) ∧
    (bloodEnv.ShipsCards fun _ => .blood) ∧
    (lastCard { enablePlay := false, enableDiscard := false }).Stacked ∧
    (∃ m, (lastCard { enablePlay := false, enableDiscard := false }).TurnOf 2 m) ∧
    ¬ Progress bloodEnv (perform bloodEnv 100) 100 (fun _ => true) 2
      (lastCard { enablePlay := false, enableDiscard := false }) := by
  set base : CardBase := { enablePlay := false, enableDiscard := false } with hbase
  refine ⟨bloodEnv_ships, bloodEnv_shipsCards, lastCard_stacked base, lastCard_turnOf base, fun h => ?_⟩
  have hsame : wp (monsterUpdate bloodEnv (perform bloodEnv 100) 100 (fun _ => true) 2)
      (fun _ w' => w'.trace = [] ∧ w'.sceneMatch.map Match.isdone = some false ∧ (w'.pack 2).stackHold = [5])
      (fun _ _ => False) (lastCard { enablePlay := false, enableDiscard := false }) := by decide +kernel
  obtain ⟨_, w', -, hprogress, htrace, hdone, hhold⟩ := exists_ok_of_wp (wp_mono (wp_and h hsame) (fun _ _ h => h)
    fun _ _ h => h.1)
  rcases hprogress with ⟨late, hlate⟩ | ⟨m, hm, hover⟩ | ⟨c, w₀, hpick, hgone⟩
  · rw [World.recordedSince, htrace] at hlate
    cases hlate
  · rw [hm, Option.map_some, hover] at hdone
    cases hdone
  · rw [show tableRandom bloodEnv 2 ((lastCard base).pack 2).stackHold (lastCard base) =
      .ok (some 5) ((lastCard base).reseed 2 1) from rfl] at hpick
    cases hpick
    rw [hhold] at hgone
    exact hgone (List.mem_singleton_self 5)

end Slam.Game
