import Slam.Game.Conservation

/-!
# A card that is played

`Entity:card_play` charges mp and takes the card from the hand, runs the scripts of `CARD_PLAY_Z`, and
files the card only then. The host catches whatever a script raises, but nothing puts the card back: it
is in no stack from then on, though it has been paid for.

`card_play_whole_iff` says for every world, card, target and any scripts when a card is played whole or
not at all: exactly if `CARD_PLAY_A` does not take the card from the hand without `card_play` charging
it afterwards, and `CARD_PLAY_Z` does not raise once the card has been charged.
-/

namespace Slam.Game

open Raising Track

variable {env : Env}

/-! ### What `card_play` checks and charges -/

/-- It is the turn of the entity in a match that is not done, the entity is living, and the card is in
its hand and may be played: what is checked before `CARD_PLAY_A`. -/
def World.Tries (w : World) (e c : ℤ) : Prop :=
  (∃ m, w.sceneMatch = some m ∧ m.isdone = false ∧ m.roundEntityid = some e ∧ e ∈ m.entities) ∧
  (w.entityAt e).death = false ∧ c ∈ (w.pack e).stackHold ∧ (w.cardAt c).base.enablePlay = true

/-- The career fits and there is mp for the card: what is checked after `CARD_PLAY_A`. -/
def World.Accepts (w : World) (e c : ℤ) : Prop :=
  ((w.cardAt c).base.requireCareer = 0 ∨ (w.cardAt c).base.requireCareer = (w.entityAt e).base.career) ∧
  (w.cardAt c).base.costMp ≤ (w.pack e).mp ∧ 0 ≤ (w.pack e).mp

instance decidableAccepts (w : World) (e c : ℤ) : Decidable (w.Accepts e c) :=
  inferInstanceAs (Decidable ((_ ∨ _) ∧ _ ∧ _))

/-- The mp of the entity after the card has been charged: `cost_mp`, then `resume_mp`. -/
def World.charge (w : World) (e c : ℤ) : World :=
  w.setPack e { w.pack e with
    mp := max 0 ((w.pack e).mp - (w.cardAt c).base.costMp + (w.cardAt c).base.resumeMp.getD 0) }

theorem World.setPack_self (w : World) (e : ℤ) : w.setPack e (w.pack e) = w := by
  simp [World.setPack, World.pack, World.setEntity]

theorem mpAdd_apply {w : World} {e value : ℤ} (h : 0 ≤ (w.pack e).mp) :
    mpAdd e value w = .ok () (w.setPack e { w.pack e with mp := max 0 ((w.pack e).mp + value) }) := by
  by_cases hvalue : value = 0
  · subst hvalue
    have heq : ({ w.pack e with mp := max 0 ((w.pack e).mp + 0) } : Pack) = w.pack e := by
      rw [add_zero, max_eq_right h]
    rw [heq, World.setPack_self]
    rfl
  · rw [mpAdd, attributeAdd, if_neg hvalue, bind_of_ok (show getPack e w = .ok (w.pack e) w from rfl),
      bind_of_ok (assertion_apply (show 0 ≤ Attribute.get (w.pack e) .mp from h) _)]
    rfl

section Play

variable (env : Env) (act : Act → Run Unit) (e c : ℤ) (pick : Option ℤ)

/-- The breakpoint before the card leaves the hand. -/
def playA : Run Unit := whileLocked e (breakpoint env act e (some c) pick (some .cardPlayA))

/-- The breakpoint after the card has left the hand. -/
def playZ : Run Unit := breakpoint env act e (some c) pick (some .cardPlayZ)

/-- What `card_play` does after `CARD_PLAY_A`. -/
def playCharged : Run Bool := do
  let w ← get
  let base := (w.cardAt c).base
  if base.requireCareer ≠ 0 ∧ base.requireCareer ≠ (w.entityAt e).base.career then return false
  if (w.pack e).mp < base.costMp then return false
  mpAdd e (-base.costMp)
  if base.resumeMp ≠ none ∧ base.resumeMp ≠ some 0 then mpAdd e (base.resumeMp.getD 0)
  settleCard e c (playZ env act e c pick)
  return true

variable {env act e c pick}

/-- A card that is not to be tried changes nothing. -/
theorem matchCardPlay_of_not_tries {w : World} (h : ¬ w.Tries e c) : endState (matchCardPlay env act e c pick) w = w := by
  refine endState_of_wp (P := (· = w)) ?_
  rw [matchCardPlay, wp_bind, wp_getMatch]
  refine ⟨fun m hm => ?_, fun _ => rfl⟩
  rw [wp_bind, wp_assertion]
  refine ⟨fun hdone => ?_, fun _ => rfl⟩
  rw [wp_bind, wp_assertion]
  refine ⟨fun hturn => ?_, fun _ => rfl⟩
  rw [wp_ite]
  refine ⟨fun _ => rfl, fun hmem => ?_⟩
  rw [cardPlay, wp_bind, wp_get, wp_ite]
  refine ⟨fun _ => rfl, fun hdeath => ?_⟩
  rw [wp_ite]
  refine ⟨fun _ => rfl, fun hhold => ?_⟩
  rw [wp_ite]
  refine ⟨fun _ => rfl, fun hplay => absurd ⟨⟨m, hm, hdone, hturn, not_not.1 hmem⟩, ?_, not_not.1 hhold, ?_⟩ h⟩
  · exact Bool.eq_false_of_not_eq_true hdeath
  · exact Bool.eq_true_of_not_eq_false hplay

/-- A card that is tried goes to `CARD_PLAY_A` and on. -/
theorem matchCardPlay_of_tries {w : World} (h : w.Tries e c) :
    matchCardPlay env act e c pick w = (playA env act e c pick >>= fun _ => playCharged env act e c pick) w := by
  obtain ⟨⟨m, hm, hdone, hturn, hmem⟩, hdeath, hhold, hplay⟩ := h
  have hget : getMatch w = .ok m w := by
    rw [getMatch, bind_of_ok (show (get : Run World) w = .ok w w from rfl)]
    simp only [hm]
    rfl
  rw [matchCardPlay, bind_of_ok hget, bind_of_ok (assertion_apply hdone _), bind_of_ok (assertion_apply hturn _),
    if_neg (not_not.2 hmem)]
  show cardPlay env act e c pick w = _
  rw [cardPlay, bind_of_ok (show (get : Run World) w = .ok w w from rfl), if_neg (by simp [hdeath]),
    if_neg (not_not.2 hhold), if_neg (by simp [hplay])]
  rfl

/-- A card that is not accepted is not charged. -/
theorem playCharged_of_not_accepts {w : World} (h : ¬ w.Accepts e c) : endState (playCharged env act e c pick) w = w := by
  refine endState_of_wp (P := (· = w)) ?_
  rw [playCharged, wp_bind, wp_get, wp_ite]
  refine ⟨fun _ => rfl, fun hcareer => ?_⟩
  rw [wp_ite]
  refine ⟨fun _ => rfl, fun hmp => ?_⟩
  -- The cost is not more than the mp, so the mp is negative and `mp_add` raises.
  have hneg : ¬ 0 ≤ (w.pack e).mp := by
    intro hnonneg
    refine h ⟨?_, not_lt.1 hmp, hnonneg⟩
    by_contra hne
    exact hcareer (not_or.1 hne)
  have hcost : ¬ -(w.cardAt c).base.costMp = 0 := by omega
  rw [wp_bind, mpAdd, attributeAdd, if_neg hcost, wp_bind, wp_getPack, wp_bind, wp_assertion]
  exact ⟨fun hnonneg => absurd hnonneg hneg, fun _ => rfl⟩

/-- A card that is accepted is charged and then settled. -/
theorem playCharged_of_accepts {w : World} (h : w.Accepts e c) : playCharged env act e c pick w =
    (settleCard e c (playZ env act e c pick) >>= fun _ => pure true) (w.charge e c) := by
  obtain ⟨hcareer, hcost, hmp⟩ := h
  have hcareer' : ¬ ((w.cardAt c).base.requireCareer ≠ 0 ∧
      (w.cardAt c).base.requireCareer ≠ (w.entityAt e).base.career) := by
    rintro ⟨h₁, h₂⟩
    exact hcareer.elim h₁ h₂
  have hpaid : max 0 ((w.pack e).mp + -(w.cardAt c).base.costMp) = (w.pack e).mp - (w.cardAt c).base.costMp := by
    omega
  rw [playCharged, bind_of_ok (show (get : Run World) w = .ok w w from rfl), if_neg hcareer', if_neg (not_lt.2 hcost),
    bind_of_ok (mpAdd_apply hmp), hpaid]
  have hpaid' : 0 ≤ ((w.setPack e { w.pack e with mp := (w.pack e).mp - (w.cardAt c).base.costMp }).pack e).mp := by
    rw [World.pack_setPack_self]
    show 0 ≤ (w.pack e).mp - _
    omega
  split
  · rw [bind_of_ok (mpAdd_apply hpaid'), World.setPack_setPack, World.pack_setPack_self]
    rfl
  · rename_i hresume
    have hzero : (w.cardAt c).base.resumeMp.getD 0 = 0 := by
      cases hr : (w.cardAt c).base.resumeMp with
      | none => rfl
      | some r =>
        rw [hr] at hresume
        simpa using hresume
    rw [World.charge, hzero, add_zero, max_eq_right (by omega)]

end Play

/-! ### Where the card is -/

namespace Pack.Conserved

variable {p : Pack} {next c : ℤ}

/-- A card that is being settled has no place. -/
theorem not_placed (h : p.Conserved next) (hsettling : c ∈ p.settling) : ¬ p.Placed c := by
  rintro (⟨s, hs, -⟩ | hdestroyed)
  · exact not_nodup_of_settling hs hsettling (List.Nodup.of_append_left h.nodup_inPlay)
  · have hplay : c ∈ p.inPlay := List.mem_append_right _ hsettling
    exact List.disjoint_of_nodup_append h.nodup_inPlay hplay hdestroyed

theorem nodup_hold (h : p.Conserved next) : p.stackHold.Nodup := by
  have hplay : p.inPlay.Nodup := List.Nodup.of_append_left h.nodup_inPlay
  simp only [Pack.inPlay, List.nodup_append] at hplay
  tauto

theorem not_hold (h : p.Conserved next) {s : Stack} (hs : c ∈ s.get p) (hne : s ≠ .hold) : c ∉ p.stackHold :=
  fun hhold => not_nodup_of_mem (t := .hold) hne hs hhold (List.Nodup.of_append_left h.nodup_inPlay)

end Pack.Conserved

theorem known_setPack {w : World} {e i : ℤ} {p : Pack} (hp : (w.pack e).known ⊆ p.known) :
    (w.pack i).known ⊆ ((w.setPack e p).pack i).known := by
  by_cases hi : i = e
  · subst hi
    rwa [World.pack_setPack_self]
  · rw [World.pack_setPack_of_ne _ hi]
    exact List.Subset.refl _

theorem Stack.known_set (s : Stack) (p : Pack) (cards : List ℤ) : (s.set p cards).known = p.known := by
  cases s <;> rfl

theorem Quiet.known {w w' : World} (h : Quiet w w') (i : ℤ) : (w'.pack i).known = (w.pack i).known :=
  (congrArg Pack.known (h.packCore i) :)

/-- Cards that are known stay so. -/
theorem Step.known {adding : Bool} {w w' : World} (h : Step adding w w') (i : ℤ) :
    (w.pack i).known ⊆ (w'.pack i).known := by
  cases h with
  | quiet hq => rw [hq.known i]; exact List.Subset.refl _
  | @shift e c s t =>
    refine known_setPack (w := w.touch e) ?_
    simp only [Pack.shift, Stack.known_set]
    exact List.Subset.refl _
  | @newone w₁ e hq =>
    rw [← hq.known i]
    refine known_setPack (w := w₁.touch e) ?_
    rw [Pack.known, Pack.known, Pack.receiveNewone, ← List.append_assoc]
    exact List.subset_append_left _ _
  | @addCard w₁ e _ hq =>
    rw [← hq.known i]
    exact known_setPack (List.Subset.refl _)
  | @leave e => exact known_setPack (w := w.touch e) (List.Subset.refl _)
  | @file e c s =>
    refine known_setPack (w := w.touch e) ?_
    cases s <;> exact List.Subset.refl _
  | destroy => exact known_setPack (List.Subset.refl _)
  | lock => exact List.Subset.refl _
  | unlock => exact List.Subset.refl _
  | @die e =>
    have hpack : (w.die e).pack i = w.pack i := by
      rw [World.die]
      split
      · exact World.pack_markDead ..
      · split
        · exact World.pack_markDead ..
        · exact World.pack_markDead ..
    rw [hpack]
    exact List.Subset.refl _
  | pass => exact List.Subset.refl _

theorem Moves.known {adding : Bool} {w w' : World} (h : Moves adding w w') (i : ℤ) :
    (w.pack i).known ⊆ (w'.pack i).known := by
  induction h with
  | refl => exact List.Subset.refl _
  | tail _ hstep ih => exact List.Subset.trans ih (hstep.known i)

/-- An error leaves the cards that are being settled. -/
theorem Fail.settling {f : Fault} {w w' : World} (h : Fail f w w') (i : ℤ) :
    (w'.pack i).settling = (w.pack i).settling := by
  cases h with
  | plain => rfl
  | stack _ _ hq => exact hq.settling i
  | late => rw [World.pack_markDead]
  | undone => rw [World.pack_markDead]
  | noScene => rw [World.pack_markDead]
  | noTurn _ _ _ hw =>
    obtain ⟨total, j, e, rfl⟩ := hw
    rfl

/-! ### Playing a card -/

/-- The world in which a card has left the hand. -/
def World.handLeft (w : World) (e c : ℤ) : World := (w.touch e).setPack e ((w.pack e).leave c)

/-- Filing a card that has left the hand, if all cards are where they should be. -/
theorem wp_fileCard_of_stacked {w : World} {e c : ℤ} (hw : w.Stacked) (hc : c ∈ (w.pack e).settling) :
    wp (fileCard e c) (fun _ w' => (w'.pack e).Placed c ∧ c ∉ (w'.pack e).stackHold) (fun _ _ => False) w := by
  have hconserved := hw e
  have hinsert (s : Stack) (hs : s ≠ .hold) : wp (do
        stackInsert s e c
        modifyPack e fun p => { p with settling := p.settling.erase c })
      (fun _ w' => (w'.pack e).Placed c ∧ c ∉ (w'.pack e).stackHold) (fun _ _ => False) w := by
    simp only [stackInsert, wp_bind, wp_getPack, wp_assertion, wp_modify, wp_modifyPack,
      World.pack_touch, World.pack_setPack_self]
    refine ⟨fun _ => ?_, fun h => not_nodup_of_settling (not_not.1 h) hc (List.Nodup.of_append_left hconserved.nodup_inPlay)⟩
    have heq : { s.set (w.pack e) (s.get (w.pack e) ++ [c]) with
        settling := (s.set (w.pack e) (s.get (w.pack e) ++ [c])).settling.erase c } = (w.pack e).file s c := by
      rw [Pack.file, Stack.settling_set]
    rw [heq]
    have hfile : ((w.pack e).file s c).Conserved w.nextCard := hconserved.file hc
    have hmem : c ∈ s.get ((w.pack e).file s c) := by
      cases s <;> simp [Pack.file, Stack.get, Stack.set]
    exact ⟨hfile.placed_of_mem hmem, hfile.not_hold hmem hs⟩
  rw [fileCard, wp_bind, wp_get, wp_ite]
  refine ⟨fun _ => hinsert .discard (by decide), fun _ => ?_⟩
  rw [wp_ite]
  refine ⟨fun _ => hinsert .exhaust (by decide), fun _ => ?_⟩
  rw [wp_modifyPack, World.pack_setPack_self]
  refine ⟨.inr (List.mem_append_right _ (List.mem_singleton_self c)), fun hhold => ?_⟩
  have hhold : c ∈ Stack.hold.get (w.pack e) := hhold
  exact not_nodup_of_settling hhold hc (List.Nodup.of_append_left hconserved.nodup_inPlay)

section Whole

variable (env : Env) (act : Act → Run Unit) (e c : ℤ) (pick : Option ℤ)

/-- `card_play` charges the card. -/
def Charges (w : World) : Prop :=
  w.Tries e c ∧ ∃ u, playA env act e c pick w = .ok () u ∧ u.Accepts e c

/-- After `Match.card_play` the card has its place, and it has been charged exactly if it left the hand. -/
def PlayedWhole (w : World) : Prop :=
  ((endState (matchCardPlay env act e c pick) w).pack e).Placed c ∧
  (Charges env act e c pick w ↔
    c ∈ (w.pack e).stackHold ∧ c ∉ ((endState (matchCardPlay env act e c pick) w).pack e).stackHold)

/-- What the scripts of a card that is tried have to do for the card to be played whole: if
`CARD_PLAY_A` raises, or if the card is not accepted after it, then it has left the card in the hand;
and if the card is charged and leaves the hand then `CARD_PLAY_Z` returns. -/
structure Smooth (w : World) : Prop where
  kept : ∀ u, (∃ f, playA env act e c pick w = .error f u) ∨ playA env act e c pick w = .ok () u ∧ ¬ u.Accepts e c →
    c ∈ (u.pack e).stackHold
  settled : ∀ u, playA env act e c pick w = .ok () u → u.Accepts e c → c ∈ (u.pack e).stackHold →
    Returns (playZ env act e c pick) ((u.charge e c).handLeft e c)

end Whole

section Whole

variable {act : Act → Run Unit} {e c : ℤ} {pick : Option ℤ}

/-- A card that is not charged is played whole exactly if it is still in the hand. -/
theorem playedWhole_of_not_charges {w u : World} (hend : endState (matchCardPlay env act e c pick) w = u)
    (hu : u.Stacked) (hcharges : ¬ Charges env act e c pick w) (hhold : c ∈ (w.pack e).stackHold) :
    PlayedWhole env act e c pick w ↔ c ∈ (u.pack e).stackHold := by
  rw [PlayedWhole, hend]
  constructor
  · rintro ⟨-, hleft⟩
    by_contra hne
    exact hcharges (hleft.2 ⟨hhold, hne⟩)
  · intro hmem
    exact ⟨(hu e).placed_of_mem (s := .hold) hmem, iff_of_false hcharges fun h => h.2 hmem⟩

/-- A card that is charged is played whole exactly if it has its place and has left the hand. -/
theorem playedWhole_of_charges {w u : World} (hend : endState (matchCardPlay env act e c pick) w = u)
    (hcharges : Charges env act e c pick w) :
    PlayedWhole env act e c pick w ↔ (u.pack e).Placed c ∧ c ∉ (u.pack e).stackHold := by
  rw [PlayedWhole, hend]
  have hhold : c ∈ (w.pack e).stackHold := hcharges.1.2.2.1
  simp only [hcharges, hhold, true_and, true_iff]

/-- Charging leaves the stacks. -/
theorem World.charge_table (w : World) (e c i : ℤ) : ((w.charge e c).pack i).table = (w.pack i).table := by
  by_cases hi : i = e
  · subst hi
    rw [World.charge, World.pack_setPack_self]
    rfl
  · rw [World.charge, World.pack_setPack_of_ne _ hi]

theorem World.Stacked.charge {w : World} (h : w.Stacked) (e c : ℤ) : (w.charge e c).Stacked :=
  h.congr (w.charge_table e c) (le_refl _)

/-- The end of a card that is tried, if `CARD_PLAY_A` returns. -/
theorem endState_of_playA {w u : World} (htries : w.Tries e c) (hA : playA env act e c pick w = .ok () u) :
    (u.Accepts e c → endState (matchCardPlay env act e c pick) w =
      endState (settleCard e c (playZ env act e c pick)) (u.charge e c)) ∧
    (¬ u.Accepts e c → endState (matchCardPlay env act e c pick) w = u) := by
  have hplay : endState (matchCardPlay env act e c pick) w = endState (playCharged env act e c pick) u := by
    rw [endState, matchCardPlay_of_tries htries, bind_of_ok hA, endState]
  constructor
  · intro haccepts
    rw [hplay, ← endState_bind_pure (settleCard e c (playZ env act e c pick)) fun _ => true, endState, endState,
      playCharged_of_accepts haccepts]
  · intro haccepts
    rw [hplay, playCharged_of_not_accepts haccepts]

theorem endState_of_playA_error {w u : World} {f : Fault} (htries : w.Tries e c)
    (hA : playA env act e c pick w = .error f u) : endState (matchCardPlay env act e c pick) w = u := by
  rw [endState, matchCardPlay_of_tries htries, bind_of_error hA]

/-- A card leaves the hand and is being settled. -/
theorem World.Stacked.handLeft {w : World} (hw : w.Stacked) (hhold : c ∈ (w.pack e).stackHold) :
    leaveHand e c w = .ok () (w.handLeft e c) ∧ (w.handLeft e c).Stacked ∧ c ∈ ((w.handLeft e c).pack e).settling := by
  have hstep : Step true w (w.handLeft e c) := .leave hhold
  refine ⟨eq_ok_of_wp (wp_leaveHand.2 ⟨fun _ => rfl, fun h => h hhold⟩), hw.step hstep, ?_⟩
  rw [World.handLeft, World.pack_setPack_self]
  exact List.mem_cons_self ..

/-- A card in the hand has its place and has left the hand, if `CARD_PLAY_Z` returns. -/
theorem wp_settleCard_of_returns
    (hact : ∀ f call w, ∀ a ∈ env.script f call w, (logicTrack true).Follows (act a)) {w : World} (hw : w.Stacked)
    (hhold : c ∈ (w.pack e).stackHold) (hZ : Returns (playZ env act e c pick) (w.handLeft e c)) :
    wp (settleCard e c (playZ env act e c pick)) (fun _ w' => (w'.pack e).Placed c ∧ c ∉ (w'.pack e).stackHold)
      (fun _ _ => False) w := by
  obtain ⟨hleave, hstacked, hmem⟩ := hw.handLeft hhold
  have hfollows : (logicTrack true).Follows (playZ env act e c pick) := follows_breakpoint hact _ _ _ _
  obtain ⟨_, v, hZ, -⟩ := exists_ok_of_wp hZ
  obtain ⟨hmoves, hbracket⟩ := (wp_ok hZ).1 (hfollows _)
  rw [settleCard, wp_bind, wp_ok hleave, wp_bind, wp_ok hZ]
  exact wp_fileCard_of_stacked (hstacked.moves hmoves) (by rwa [hbracket.settling e])

/-- A card that has been charged is played whole exactly if it was not in the hand any more or
`CARD_PLAY_Z` returns. -/
theorem settleCard_whole_iff
    (hact : ∀ f call w, ∀ a ∈ env.script f call w, (logicTrack true).Follows (act a)) {w : World} (hw : w.Stacked)
    (hknown : c ∈ (w.pack e).known) (hsettling : c ∉ (w.pack e).settling) :
    (((endState (settleCard e c (playZ env act e c pick)) w).pack e).Placed c ∧
      c ∉ ((endState (settleCard e c (playZ env act e c pick)) w).pack e).stackHold) ↔
    (c ∈ (w.pack e).stackHold → Returns (playZ env act e c pick) (w.handLeft e c)) := by
  by_cases hhold : c ∈ (w.pack e).stackHold
  · cases hZ : playZ env act e c pick (w.handLeft e c) with
    | ok a v =>
      have hreturns : Returns (playZ env act e c pick) (w.handLeft e c) := (wp_ok hZ).2 trivial
      refine iff_of_true ?_ fun _ => hreturns
      refine endState_of_wp (P := fun w' : World => (w'.pack e).Placed c ∧ c ∉ (w'.pack e).stackHold) ?_
      exact wp_mono (wp_settleCard_of_returns hact hw hhold hreturns) (fun _ _ h => h) fun _ _ h => h.elim
    | error f v =>
      obtain ⟨hleave, hstacked, hmem⟩ := hw.handLeft hhold
      have hfollows : (logicTrack true).Follows (playZ env act e c pick) := follows_breakpoint hact _ _ _ _
      obtain ⟨u, hmoves, hflight, hfail⟩ := (wp_error hZ).1 (hfollows _)
      have hend : endState (settleCard e c (playZ env act e c pick)) w = v := by
        rw [endState, settleCard, bind_of_ok hleave, bind_of_error hZ]
      rw [hend]
      refine iff_of_false (fun h => ?_) fun h => (wp_error hZ).1 (h hhold)
      -- The card is still being settled.
      have hmem' : c ∈ (v.pack e).settling := by
        rw [hfail.settling e]
        exact (hflight e).subset hmem
      exact ((hstacked.moves hmoves).fail hfail e).not_placed hmem' h.1
  · have hleave : leaveHand e c w = .error (.assertion .stackHoldRemove) w :=
      eq_error_of_wp (wp_leaveHand.2 ⟨fun h => hhold h, fun _ => ⟨rfl, rfl⟩⟩)
    have hend : endState (settleCard e c (playZ env act e c pick)) w = w := by
      rw [endState, settleCard, bind_of_error hleave]
    rw [hend]
    exact iff_of_true ⟨(hw e).placed_of_known hknown hsettling, hhold⟩ fun h => absurd h hhold

/-- **When a card is played whole or not at all.** For every world in which the cards are where they
should be, every card of the entity, every target and any scripts: after `Match.card_play` the card is
in exactly one stack or destroyed, and it has been charged if and only if it left the hand, exactly if
the card is not tried at all or its scripts run smoothly. A card that is charged is settled from the
world in which `cost_mp` and `resume_mp` have been added, and one that is not is left as `CARD_PLAY_A`
left it. -/
theorem card_play_whole_iff (env : Env) (fuel : ℕ) (e c : ℤ) (pick : Option ℤ) {w : World} (hw : w.Stacked)
    (hc : c ∈ (w.pack e).stacked) :
    (PlayedWhole env (perform env fuel) e c pick w ↔
      (w.Tries e c → Smooth env (perform env fuel) e c pick w)) ∧
    ∀ u, w.Tries e c → playA env (perform env fuel) e c pick w = .ok () u →
      (u.Accepts e c → endState (matchCardPlay env (perform env fuel) e c pick) w =
        endState (settleCard e c (playZ env (perform env fuel) e c pick)) (u.charge e c)) ∧
      (¬ u.Accepts e c → endState (matchCardPlay env (perform env fuel) e c pick) w = u) := by
  refine ⟨?_, fun u htries hA => endState_of_playA htries hA⟩
  have hscript := script_follows_true env fuel
  have hplay : c ∈ (w.pack e).inPlay := List.mem_append_left _ hc
  have hsettling : c ∉ (w.pack e).settling := by
    intro hsettling
    have hnodup : (w.pack e).inPlay.Nodup := List.Nodup.of_append_left (hw e).nodup_inPlay
    exact List.disjoint_of_nodup_append hnodup hc hsettling
  have hknown : c ∈ (w.pack e).known := (hw e).perm.mem_iff.1 (List.mem_append_left _ hplay)
  by_cases htries : w.Tries e c
  · have hfollows : (logicTrack true).Follows (playA env (perform env fuel) e c pick) := fun w =>
      wp_mono (wp_whileLocked (follows_breakpoint hscript _ _ _ _) e w) (fun _ _ h => h.1) fun _ _ h => h
    have hhold : c ∈ (w.pack e).stackHold := htries.2.2.1
    simp only [htries, true_imp_iff]
    cases hA : playA env (perform env fuel) e c pick w with
    | error f u =>
      obtain ⟨v, hmoves, -, hfail⟩ := (wp_error hA).1 (hfollows w)
      have hcharges : ¬ Charges env (perform env fuel) e c pick w := by
        rintro ⟨-, u, hu, -⟩
        rw [hA] at hu
        cases hu
      rw [playedWhole_of_not_charges (endState_of_playA_error htries hA) ((hw.moves hmoves).fail hfail) hcharges hhold]
      constructor
      · intro hmem
        refine ⟨?_, fun u hu => ?_⟩
        · rintro u' (⟨f', hu'⟩ | ⟨hu', -⟩) <;> rw [hA] at hu' <;> cases hu'
          exact hmem
        · rw [hA] at hu
          cases hu
      · exact fun h => h.kept u (.inl ⟨f, hA⟩)
    | ok a u =>
      obtain ⟨hmoves, hbracket⟩ := (wp_ok hA).1 (hfollows w)
      have hu := hw.moves hmoves
      by_cases haccepts : u.Accepts e c
      · rw [playedWhole_of_charges ((endState_of_playA htries hA).1 haccepts) ⟨htries, u, hA, haccepts⟩]
        have htable := u.charge_table e c e
        have hhold' : ((u.charge e c).pack e).stackHold = (u.pack e).stackHold := (congrArg Pack.stackHold htable :)
        have hknown' : ((u.charge e c).pack e).known = (u.pack e).known := (congrArg Pack.known htable :)
        have hsettling' : ((u.charge e c).pack e).settling = (u.pack e).settling := (congrArg Pack.settling htable :)
        rw [settleCard_whole_iff hscript (hu.charge e c) (by rw [hknown']; exact hmoves.known e hknown)
          (by rw [hsettling', hbracket.settling e]; exact hsettling), hhold']
        constructor
        · intro hreturns
          refine ⟨?_, fun u' hu' _ => ?_⟩
          · rintro u' (⟨f', hu'⟩ | ⟨hu', hne⟩) <;> rw [hA] at hu' <;> cases hu'
            exact absurd haccepts hne
          · rw [hA] at hu'
            cases hu'
            exact hreturns
        · exact fun h => h.settled u hA haccepts
      · have hcharges : ¬ Charges env (perform env fuel) e c pick w := by
          rintro ⟨-, u', hu', haccepts'⟩
          rw [hA] at hu'
          cases hu'
          exact haccepts haccepts'
        rw [playedWhole_of_not_charges ((endState_of_playA htries hA).2 haccepts) hu hcharges hhold]
        constructor
        · intro hmem
          refine ⟨?_, fun u' hu' haccepts' => ?_⟩
          · rintro u' (⟨f', hu'⟩ | ⟨hu', -⟩) <;> rw [hA] at hu' <;> cases hu'
            exact hmem
          · rw [hA] at hu'
            cases hu'
            exact absurd haccepts' haccepts
        · exact fun h => h.kept u (.inr ⟨hA, haccepts⟩)
  · refine iff_of_true ?_ fun h => absurd h htries
    rw [PlayedWhole, matchCardPlay_of_not_tries htries]
    exact ⟨(hw e).placed_of_known hknown hsettling, iff_of_false (fun h => htries h.1) fun h => h.2 h.1⟩

end Whole

/-- A duel in which the player has one card in the hand. The enemy has one point of hp left and a buff of
thorns. -/
def thornyHand : World where
  entityAt e :=
    { side := if e = 1 then .allies else .enemy
      pack := { hp := if e = 1 then 3 else 1, maxhp := 9, mp := 2, buffs := if e = 1 then [] else [7]
                stackHold := if e = 1 then [5] else [], dealt := if e = 1 then [5] else [] } }
  buffAt _ := { entity := 2, baseid := Stats.thorn, base := {}, layers := 5 }
  cardAt _ := { baseid := 1, base := {
    costMp := 1, enableScript := true, requireTarget := .enemyAll, damageType := .physical, damageValue := 4 } }
  nextCard := 6
  scene := some { sceneMatch := some {
    isstart := true, entities := [1, 2], roundList := [1, 2], roundEntityid := some 1
    roundIterator := some 1, roundListSize := some 2 } }

theorem thornyHand_stacked : thornyHand.Stacked := by
  intro e
  by_cases he : e = 1
  · subst he
    exact ⟨by decide, by decide, by decide⟩
  · refine Pack.Conserved.of_nil ?_ ?_ ?_ ?_ _ <;> simp [thornyHand, World.pack, Pack.inPlay, he]

theorem card_play_whole_thornyHand : PlayedWhole plainEnv (perform plainEnv 1) 1 5 none thornyHand := by
  have hA := eq_ok_of_returns
    (show Returns (playA plainEnv (perform plainEnv 1) 1 5 none) thornyHand by decide +kernel)
  refine (card_play_whole_iff plainEnv 1 1 5 none thornyHand_stacked (by decide)).1.2 fun _ => ⟨?_, ?_⟩
  · rintro u (⟨f, hu⟩ | ⟨hu, hne⟩) <;> rw [hA] at hu <;> cases hu
    exact absurd (by decide +kernel) hne
  · intro u hu _ _
    rw [hA] at hu
    cases hu
    decide +kernel

/-- The rows of `plainEnv` with the script `CardScript.common`. -/
def commonEnv : Env where
  cardTable _ := some {}
  itemTable _ := some {}
  buffTable _ := some {}
  entityTable _ := some {}
  script _ call _ :=
    match call.bp, call.card with
    | some .cardPlayZ, some c => [.useCard call.entity c call.pick]
    | _, _ => []
  itemScript _ _ _ _ := []
  pairs := id
  pairs_perm := plainEnv.pairs_perm

/-- The card kills the last enemy, its thorns kill the player, `die_entity` raises, and the card, which
has been paid for, is in no stack. -/
theorem card_play_loses_card : thornyHand.Stacked ∧ 5 ∈ (thornyHand.pack 1).stacked ∧
    ((endState (matchCardPlay commonEnv (perform commonEnv 2) 1 5 none) thornyHand).pack 1).mp = 1 ∧
    ((endState (matchCardPlay commonEnv (perform commonEnv 2) 1 5 none) thornyHand).pack 1).stacked = [] ∧
    ¬ PlayedWhole commonEnv (perform commonEnv 2) 1 5 none thornyHand := by
  refine ⟨thornyHand_stacked, by decide, by decide +kernel, by decide +kernel, ?_⟩
  rintro ⟨⟨s, hs, -⟩ | hdestroyed, -⟩
  · have hnone : ∀ s : Stack, s.get
        ((endState (matchCardPlay commonEnv (perform commonEnv 2) 1 5 none) thornyHand).pack 1) = [] := by
      intro s
      cases s <;> decide +kernel
    rw [hnone s] at hs
    cases hs
  · have hnone : ((endState (matchCardPlay commonEnv (perform commonEnv 2) 1 5 none) thornyHand).pack 1).destroyed = [] := by
      decide +kernel
    rw [hnone] at hdestroyed
    cases hdestroyed

end Slam.Game
