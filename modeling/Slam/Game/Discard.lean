import Slam.Game.CardScript
import Slam.Game.Follow.Entity

/-!
# The discard at the end of a round

`Entity:round_end` discards cards while the hand holds too many. A discard takes the card from the hand, unless the
entity is dead: then `card_discard` returns at once and the loop goes on forever. An entity can die of a discard, by
the script `blood`.

`discards_end_iff` says for every world when the loop ends: exactly if the entity outlives the discards, that is, if
it lives before each of the discards that are due and none of them raises. The scripts that are shipped leave the
hand (`hand_breakpoint_discard`), so that each discard of a living entity makes the hand smaller by one.
-/

namespace Slam.Game

open Raising Track

/-! ### The loop -/

/-- The condition of the loop. -/
def World.Overfull (w : World) (e : ℤ) : Prop :=
  0 < (w.pack e).stackHold.length ∧ (w.pack e).maxHoldCards < (w.pack e).stackHold.length

/-- How many cards there are too many. -/
def World.excess (w : World) (e : ℤ) : ℕ := (((w.pack e).stackHold.length : ℤ) - max 0 (w.pack e).maxHoldCards).toNat

theorem World.overfull_iff {w : World} {e : ℤ} : w.Overfull e ↔ 0 < w.excess e := by
  unfold World.Overfull World.excess
  omega

section Loop

variable (env : Env) (act : Act → Run Unit) (e : ℤ)

/-- One turn of the loop. -/
def discardOne : Run Unit := do
  match (env.pairs (← getPack e).stackHold).head? with
  | none => throw .formatNil
  | some c => cardDiscard env act e c true

/-- The loop ends, and then the hand of the entity holds no more cards than it may if the entity lives. -/
def DiscardsEnd (w : World) : Prop :=
  ∃ fuel w', discardExtra env act e fuel w = .ok () w' ∧
    ((w'.entityAt e).death = false → ((w'.pack e).stackHold.length : ℤ) ≤ max 0 (w'.pack e).maxHoldCards)

/-- The entity lives before each of so many discards, and none of them raises. -/
def Outlives : ℕ → World → Prop
  | 0, _ => True
  | n + 1, w => (w.entityAt e).death = false ∧ ∃ w', discardOne env act e w = .ok () w' ∧ Outlives n w'

variable {env act e} {w : World}

variable (env act) in
/-- There is a card to discard. -/
theorem discardOne_of_overfull (h : w.Overfull e) : ∃ c l, env.pairs (w.pack e).stackHold = c :: l ∧
    c ∈ (w.pack e).stackHold ∧ discardOne env act e w = cardDiscard env act e c true w := by
  have hne : env.pairs (w.pack e).stackHold ≠ [] := by
    rw [← List.length_pos_iff, env.length_pairs]
    exact h.1
  obtain ⟨c, l, hpairs⟩ := List.exists_cons_of_ne_nil hne
  refine ⟨c, l, hpairs, env.mem_pairs.1 (by rw [hpairs]; exact List.mem_cons_self ..), ?_⟩
  rw [discardOne, bind_of_ok (show getPack e w = .ok (w.pack e) w from rfl), hpairs]
  rfl

theorem discardExtra_of_overfull (h : w.Overfull e) (fuel : ℕ) :
    discardExtra env act e (fuel + 1) w = (discardOne env act e >>= fun _ => discardExtra env act e fuel) w := by
  obtain ⟨c, l, hpairs, -, hone⟩ := discardOne_of_overfull env act h
  have hbind : (discardOne env act e >>= fun _ => discardExtra env act e fuel) w =
      (cardDiscard env act e c true >>= fun _ => discardExtra env act e fuel) w := by
    show EStateM.bind _ _ w = EStateM.bind _ _ w
    rw [EStateM.bind, EStateM.bind, hone]
  have hcond : 0 < (w.pack e).stackHold.length ∧ (w.pack e).maxHoldCards < (w.pack e).stackHold.length := h
  rw [hbind, discardExtra, bind_of_ok (show getPack e w = .ok (w.pack e) w from rfl), if_pos hcond, hpairs]
  rfl

theorem discardExtra_of_not_overfull (h : ¬ w.Overfull e) (fuel : ℕ) : discardExtra env act e (fuel + 1) w = .ok () w := by
  have hcond : ¬ (0 < (w.pack e).stackHold.length ∧ (w.pack e).maxHoldCards < (w.pack e).stackHold.length) := h
  rw [discardExtra, bind_of_ok (show getPack e w = .ok (w.pack e) w from rfl), if_neg hcond]
  rfl

/-- A discard of a dead entity does nothing. -/
theorem discardOne_of_dead (h : w.Overfull e) (hdead : (w.entityAt e).death = true) : discardOne env act e w = .ok () w := by
  obtain ⟨c, -, -, -, hone⟩ := discardOne_of_overfull env act h
  rw [hone, cardDiscard, bind_of_ok (x := get) rfl, if_pos hdead]
  rfl

/-- The loop of a dead entity does not end. -/
theorem discardExtra_of_dead (h : w.Overfull e) (hdead : (w.entityAt e).death = true) (fuel : ℕ) :
    discardExtra env act e fuel w = .error .timeout w := by
  induction fuel with
  | zero => rfl
  | succ fuel ih => rw [discardExtra_of_overfull h, bind_of_ok (discardOne_of_dead h hdead), ih]

/-! ### A discard of a living entity -/

theorem hand_fileCard (c : ℤ) : (handTrack e).Follows (fileCard e c) := by
  have hinsert (s : Stack) (hs : s ≠ .hold) : (handTrack e).Follows (do
      stackInsert s e c
      modifyPack e fun p => { p with settling := p.settling.erase c }) := by
    refine Follows.bind ?_ fun _ => hand_modifyPack (by intro; rfl) (by intro; rfl)
    refine (hand_getPack e).bind fun _ => (hand_assertion _ _).bind fun _ => (hand_modify (by intro; rfl)).bind fun _ => ?_
    refine hand_modifyPack (fun p => ?_) fun p => ?_
    · cases s with
      | hold => exact absurd rfl hs
      | _ => rfl
    · cases s <;> rfl
  refine follows_get.bind fun w => Follows.ite (fun _ => hinsert .discard (by decide)) fun _ => ?_
  exact Follows.ite (fun _ => hinsert .exhaust (by decide)) fun _ => hand_modifyPack (by intro; rfl) (by intro; rfl)

section Kept

variable (hkept : ∀ c bp, bp = .cardDiscardA ∨ bp = .cardDiscardZ →
  (handTrack e).Follows (breakpoint env act e (some c) none (some bp)))
include hkept

/-- The card leaves the hand. -/
theorem wp_cardDiscard_hold {c : ℤ} {passive : Bool} (hliving : (w.entityAt e).death = false)
    (hc : c ∈ (w.pack e).stackHold) (hallowed : (w.cardAt c).base.enableDiscard = true ∨ passive = true) :
    wp (cardDiscard env act e c passive) (fun _ w' => (w'.pack e).stackHold = (w.pack e).stackHold.erase c ∧
      (w'.pack e).maxHoldCards = (w.pack e).maxHoldCards) (fun _ _ => True) w := by
  have hlock : (handTrack e).Follows (whileLocked e (breakpoint env act e (some c) none (some .cardDiscardA))) :=
    (hand_modify (by intro; rfl)).bind fun _ => (hkept c _ (.inl rfl)).bind fun _ => hand_modify (by intro; rfl)
  rw [cardDiscard, wp_bind, wp_get, wp_ite]
  refine ⟨fun h => absurd h (by rw [hliving]; decide), fun _ => ?_⟩
  rw [wp_ite]
  refine ⟨fun h => absurd hc h, fun _ => ?_⟩
  rw [wp_ite]
  refine ⟨fun h => ?_, fun _ => ?_⟩
  · rw [h.1, h.2] at hallowed
    simp at hallowed
  rw [wp_bind]
  refine wp_mono (hlock w) (fun _ w₁ (h₁ : HandKept e w w₁) => ?_) fun _ _ _ => trivial
  rw [settleCard, wp_bind, wp_leaveHand]
  refine ⟨fun _ => ?_, fun _ => trivial⟩
  have hrest : (handTrack e).Follows (breakpoint env act e (some c) none (some .cardDiscardZ) >>= fun _ => fileCard e c) :=
    (hkept c _ (.inr rfl)).bind fun _ => hand_fileCard c
  refine wp_mono (hrest _) (fun _ w₂ (h₂ : HandKept e _ w₂) => ?_) fun _ _ _ => trivial
  have hhold := h₂.hold
  have hlimit := h₂.limit
  rw [World.pack_setPack_self] at hhold hlimit
  refine ⟨hhold.trans ?_, hlimit.trans h₁.limit⟩
  show (w₁.pack e).stackHold.erase c = _
  rw [h₁.hold]

/-- The hand gets smaller by one. -/
theorem excess_of_discardOne {w' : World} (hliving : (w.entityAt e).death = false) (hfull : w.Overfull e)
    (h : discardOne env act e w = .ok () w') : w'.excess e = w.excess e - 1 := by
  obtain ⟨c, -, -, hc, hone⟩ := discardOne_of_overfull env act hfull
  rw [hone] at h
  obtain ⟨hhold, hlimit⟩ := (wp_ok h).1 (wp_cardDiscard_hold hkept hliving hc (.inr rfl))
  have hlength := List.length_erase_of_mem hc
  unfold World.excess
  rw [hhold, hlimit, hlength]
  obtain ⟨hpos, -⟩ := hfull
  omega

theorem outlives_of_discardExtra (fuel : ℕ) {w' : World} (h : discardExtra env act e fuel w = .ok () w') :
    Outlives env act e (w.excess e) w := by
  induction fuel generalizing w with
  | zero => cases h
  | succ fuel ih =>
    by_cases hfull : w.Overfull e
    · rw [← Nat.succ_pred_eq_of_pos (World.overfull_iff.1 hfull)]
      cases hdeath : (w.entityAt e).death with
      | true =>
        rw [discardExtra_of_dead hfull hdeath] at h
        cases h
      | false =>
        rw [discardExtra_of_overfull hfull] at h
        cases hone : discardOne env act e w with
        | ok u w₁ =>
          rw [bind_of_ok hone] at h
          refine ⟨hdeath, w₁, hone, ?_⟩
          have hrest := ih h
          rwa [excess_of_discardOne hkept hdeath hfull hone] at hrest
        | error f w₁ =>
          rw [bind_of_error hone] at h
          cases h
    · rw [Nat.eq_zero_of_not_pos fun hpos => hfull (World.overfull_iff.2 hpos)]
      trivial

theorem discardExtra_of_outlives (n : ℕ) (hn : w.excess e = n) (h : Outlives env act e n w) :
    ∃ w', discardExtra env act e (n + 1) w = .ok () w' ∧ ¬ w'.Overfull e := by
  induction n generalizing w with
  | zero =>
    have hfull : ¬ w.Overfull e := fun hfull => absurd (World.overfull_iff.1 hfull) (by omega)
    exact ⟨w, discardExtra_of_not_overfull hfull 0, hfull⟩
  | succ n ih =>
    have hfull : w.Overfull e := World.overfull_iff.2 (by omega)
    obtain ⟨hliving, w₁, hone, hrest⟩ := h
    have hexcess := excess_of_discardOne hkept hliving hfull hone
    obtain ⟨w', hrun, hend⟩ := ih (by omega) hrest
    exact ⟨w', by rw [discardExtra_of_overfull hfull, bind_of_ok hone, hrun], hend⟩

/-- The loop ends exactly if the entity outlives the discards that are due. -/
theorem discardsEnd_iff_outlives : DiscardsEnd env act e w ↔ Outlives env act e (w.excess e) w := by
  constructor
  · rintro ⟨fuel, w', h, -⟩
    exact outlives_of_discardExtra hkept fuel h
  · intro h
    obtain ⟨w', hrun, hend⟩ := discardExtra_of_outlives hkept _ rfl h
    refine ⟨_, w', hrun, fun _ => ?_⟩
    unfold World.Overfull at hend
    omega

end Kept

instance decidableOutlives (env : Env) (act : Act → Run Unit) (e : ℤ) : ∀ n w, Decidable (Outlives env act e n w)
  | 0, _ => isTrue trivial
  | n + 1, w =>
    match h : discardOne env act e w with
    | .error _ _ => isFalse (by rintro ⟨-, w', hone, -⟩; rw [h] at hone; cases hone)
    | .ok _ w' =>
      have := decidableOutlives env act e n w'
      decidable_of_iff ((w.entityAt e).death = false ∧ Outlives env act e n w')
        ⟨fun hw => ⟨hw.1, w', h, hw.2⟩, fun hw => by
          obtain ⟨hliving, w'', hone, hrest⟩ := hw
          rw [h] at hone
          cases hone
          exact ⟨hliving, hrest⟩⟩

end Loop

/-- **The discard at the end of a round ends exactly if the entity outlives it**: for every world and to whatever depth
scripts answer, the loop returns, with no more cards in the hand of a living entity than it may hold, if and only if
the entity lives before each of the discards that are due and none of them raises. -/
theorem discards_end_iff {env : Env} {which : ScriptFunc → BuffFunc} {random : World → ℕ → ℕ}
    {cards : ScriptFunc → CardFunc} (hships : env.Ships which random) (hcards : env.ShipsCards cards) (n : ℕ) (e : ℤ)
    (w : World) : DiscardsEnd env (perform env n) e w ↔ Outlives env (perform env n) e (w.excess e) w :=
  discardsEnd_iff_outlives fun c _ hbp => hand_breakpoint_discard hships n hcards c hbp

/-- The script of all cards is `blood`, and no buff has a script. -/
def bloodEnv : Env where
  cardTable _ := none
  itemTable _ := none
  buffTable _ := none
  entityTable _ := none
  script _ call w :=
    match call.buff, call.card, call.bp with
    | none, some c, some bp => CardFunc.blood.acts call.entity (w.cardAt c).base bp
    | _, _, _ => []
  itemScript _ _ _ _ := []
  pairs := id
  pairs_perm := plainEnv.pairs_perm

theorem bloodEnv_ships : bloodEnv.Ships (fun _ => .none) fun _ _ => 1 where
  buff _ call w b hb := by
    show (match call.buff, call.card, call.bp with | none, some c, some bp => _ | _, _, _ => []) = _
    rw [hb]
    rfl
  card _ call w hb a ha := by
    simp only [bloodEnv, hb] at ha
    split at ha
    · unfold CardFunc.acts at ha
      split_ifs at ha
      · rw [List.mem_singleton.1 ha]
        trivial
      · cases ha
    · cases ha

theorem bloodEnv_shipsCards : bloodEnv.ShipsCards fun _ => .blood := by
  intro _ call w c bp hbuff hcard hbp _
  simp only [bloodEnv, hbuff, hcard, hbp]

/-- A match of two entities. The first has so much hp and three cards that bleed for 5, and may hold one. -/
def bleeding (hp : ℤ) : World where
  entityAt i := if i = 1 then
    { side := .allies, pack := { hp := hp, maxhp := 20, maxHoldCards := 1, stackHold := [5, 6, 7] } }
    else { side := .enemy, pack := { hp := 20, maxhp := 20 } }
  cardAt _ := { baseid := 1, base := { enableScript := true, damageValue := 5, damageType := .physical } }
  scene := some { sceneMatch := some { entities := [1, 2], roundList := [1, 2], roundEntityid := some 1 } }

/-- An entity with 20 in hp outlives two discards. -/
theorem discards_end_bleeding : bloodEnv.Ships (fun _ => .none) (fun _ _ => 1) ∧
    (bloodEnv.ShipsCards fun _ => .blood) ∧ DiscardsEnd bloodEnv (perform bloodEnv 100) 1 (bleeding 20) :=
  ⟨bloodEnv_ships, bloodEnv_shipsCards, (discards_end_iff bloodEnv_ships bloodEnv_shipsCards 100 1 (bleeding 20)).2
    (by decide +kernel)⟩

/-- An entity with 3 in hp dies of the first discard, and the loop does not end. -/
theorem not_discards_end_bleeding : bloodEnv.Ships (fun _ => .none) (fun _ _ => 1) ∧
    (bloodEnv.ShipsCards fun _ => .blood) ∧ ¬ DiscardsEnd bloodEnv (perform bloodEnv 100) 1 (bleeding 3) := by
  refine ⟨bloodEnv_ships, bloodEnv_shipsCards, fun hend => ?_⟩
  have hkept : ∀ c bp, bp = .cardDiscardA ∨ bp = .cardDiscardZ →
      (handTrack 1).Follows (breakpoint bloodEnv (perform bloodEnv 100) 1 (some c) none (some bp)) :=
    fun c _ hbp => hand_breakpoint_discard bloodEnv_ships 100 bloodEnv_shipsCards c hbp
  have houtlives := (discardsEnd_iff_outlives hkept).1 hend
  revert houtlives
  decide +kernel

end Slam.Game
