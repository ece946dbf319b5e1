import Slam.Game.Follow.Entity

/-!
# Turns and deaths follow the track

`next_round_entity` finds the next living entity of the round list or raises. Handing over a turn is
one step, and so is a death together with what `die_entity` decides about the match.
-/

namespace Slam.Game

open Raising Track

variable {env : Env} {adding : Bool} {act : Act → Run Unit} {fuel : ℕ}

/-! ### Turns -/

@[simp] theorem World.mapMatch_mapMatch (w : World) (f g : Match → Match) :
    (w.mapMatch f).mapMatch g = w.mapMatch (g ∘ f) := by
  cases hscene : w.scene <;> simp [World.mapMatch, hscene, Function.comp_def]

/-- Only the match that there is counts for what is written to it. -/
theorem World.mapMatch_congr {w : World} {m : Match} (hm : w.sceneMatch = some m) {f g : Match → Match}
    (h : f m = g m) : w.mapMatch f = w.mapMatch g := by
  cases hs : w.scene with
  | none => simp [World.mapMatch, hs]
  | some s =>
    have hsm : s.sceneMatch = some m := by simpa [World.sceneMatch, hs] using hm
    simp [World.mapMatch, hs, hsm, h]

theorem World.mapMatch_eq_self {w : World} {m : Match} (hm : w.sceneMatch = some m) {f : Match → Match}
    (h : f m = m) : w.mapMatch f = w := by
  rw [World.mapMatch_congr hm (g := id) h]
  cases hs : w.scene <;> simp [World.mapMatch]

/-- The search for the next place only looks at the round list and the entities. -/
theorem Match.nextPlace_congr {m m' : Match} (hlist : m'.roundList = m.roundList)
    (hsize : m'.roundListSize = m.roundListSize) (hentities : m'.entities = m.entities)
    (dead : ℤ → Bool) (n i : ℕ) : m'.nextPlace dead n i = m.nextPlace dead n i := by
  induction n generalizing i with
  | zero => rfl
  | succ n ih => simp only [Match.nextPlace, Match.successor, hlist, hsize, hentities, ih]

/-- The world with its match at a place of the round list. -/
def World.atPlace (w : World) (i : Option ℕ) (e : Option ℤ) : World :=
  w.mapMatch fun m => { m with roundIterator := i, roundEntityid := e }

theorem World.atPlace_atPlace (w : World) (i j : Option ℕ) (e f : Option ℤ) :
    (w.atPlace i e).atPlace j f = w.atPlace j f := by
  rw [World.atPlace, World.atPlace, World.mapMatch_mapMatch]
  rfl

/-- The loop of `next_round_entity` finds the next place, or raises having moved the iterator. -/
theorem wp_nextRoundLoop (n : ℕ) : ∀ {w : World} {m : Match} {i : ℕ}, w.sceneMatch = some m →
    m.roundIterator = some i → m.roundListSize ≠ none →
    wp (nextRoundLoop n)
      (fun _ w' => ∃ j e, m.nextPlace (fun e => (w.entityAt e).death) n i = some (j, e) ∧
        w' = w.atPlace (some j) (some e))
      (fun f w' => m.nextPlace (fun e => (w.entityAt e).death) n i = none ∧
        (f.Plain ∨ f = .assertion .nextRoundEntity) ∧ ∃ j e, w' = w.atPlace j e) w := by
  induction n with
  | zero =>
    intro w m i hm hi hsize
    refine ⟨rfl, .inl trivial, some i, m.roundEntityid, ?_⟩
    exact (World.mapMatch_eq_self hm (by rw [← hi])).symm
  | succ n ih =>
    intro w m i hm hi hsize
    obtain ⟨size, hsize⟩ := Option.ne_none_iff_exists'.1 hsize
    rw [nextRoundLoop, wp_bind, wp_getMatch]
    refine ⟨fun m' hm' => ?_, fun hnone => by rw [hm] at hnone; cases hnone⟩
    obtain rfl : m = m' := by rw [hm] at hm'; cases hm'; rfl
    have hsucc : (if size < i + 1 then 1 else i + 1) = m.successor i := by
      rw [Match.successor, hsize]
      rfl
    have hmove : (w.mapMatch fun m' => { m' with
          roundIterator := some (m.successor i), roundEntityid := m'.roundList[m.successor i - 1]? }) =
        w.atPlace (some (m.successor i)) m.roundList[m.successor i - 1]? :=
      World.mapMatch_congr hm rfl
    simp only [hi, hsize, hsucc, Match.nextPlace, wp_bind, wp_modifyMatch, hmove]
    cases hplace : m.roundList[m.successor i - 1]? with
    | none => exact ⟨rfl, .inr rfl, _, _, rfl⟩
    | some e =>
      simp only [wp_ite, wp_bind, wp_get, wp_throw]
      refine ⟨fun he => ?_, fun he => ⟨fun hdead => ?_, fun hliving => ?_⟩⟩
      · rw [if_pos he]
        exact ⟨rfl, .inl trivial, _, _, rfl⟩
      · -- The entity at this place is dead: the search goes on from here.
        have hdead' : (w.entityAt e).death = true := hdead
        rw [if_neg he, if_pos hdead']
        have hsceneMatch : (w.atPlace (some (m.successor i)) (some e)).sceneMatch =
            some { m with roundIterator := some (m.successor i), roundEntityid := some e } := by
          rw [World.atPlace, World.sceneMatch_mapMatch, hm]
          rfl
        have hcongr : ({ m with roundIterator := some (m.successor i), roundEntityid := some e } : Match).nextPlace
            (fun e => (w.entityAt e).death) n (m.successor i) =
              m.nextPlace (fun e => (w.entityAt e).death) n (m.successor i) :=
          Match.nextPlace_congr (by rfl) (by rfl) (by rfl) _ _ _
        refine wp_mono (ih hsceneMatch rfl (by simp [hsize])) ?_ ?_
        · rintro _ w' ⟨j, f, hnext, rfl⟩
          exact ⟨j, f, hcongr ▸ hnext, World.atPlace_atPlace ..⟩
        · rintro f w' ⟨hnext, hf, j, g, rfl⟩
          exact ⟨hcongr ▸ hnext, hf, j, g, World.atPlace_atPlace ..⟩
      · rw [if_neg he, if_neg (show ¬ (w.entityAt e).death = true from hliving)]
        exact ⟨_, _, rfl, rfl⟩

/-- `next_round_entity` gives the turn to the next living entity, or raises if there is none. -/
theorem wp_nextRoundEntity {w : World} {m : Match} (hm : w.sceneMatch = some m) :
    wp nextRoundEntity (fun _ w' => ∃ i e, w.nextTurn m = some (i, e) ∧ w' = w.turnTo i e)
      (fun f w' => w.nextTurn m = none ∧ Fail f w w') w := by
  rw [nextRoundEntity, wp_bind, wp_getMatch]
  refine ⟨fun m' hm' => ?_, fun hnone => by rw [hm] at hnone; cases hnone⟩
  obtain rfl : m = m' := by rw [hm] at hm'; cases hm'; rfl
  rw [wp_bind, wp_modifyMatch]
  have hcount : (w.mapMatch fun m => { m with roundTotal := m.roundTotal + 1 }).sceneMatch =
      some { m with roundTotal := m.roundTotal + 1 } := by
    rw [World.sceneMatch_mapMatch, hm]
    rfl
  have hcongr (n i : ℕ) : ({ m with roundTotal := m.roundTotal + 1 } : Match).nextPlace
      (fun e => (w.entityAt e).death) n i = m.nextPlace (fun e => (w.entityAt e).death) n i :=
    Match.nextPlace_congr (by rfl) (by rfl) (by rfl) _ _ _
  have hplace (i : Option ℕ) (e : Option ℤ) :
      (w.mapMatch fun m => { m with roundTotal := m.roundTotal + 1 }).atPlace i e = w.mapMatch fun m' =>
        { m' with roundTotal := m.roundTotal + 1, roundIterator := i, roundEntityid := e } := by
    rw [World.atPlace, World.mapMatch_mapMatch]
    exact World.mapMatch_congr hm rfl
  by_cases hready : m.roundListSize = none ∨ m.roundIterator = none
  · -- The round list has not been initialised: the first turn of the loop raises.
    have hnone : w.nextTurn m = none := by
      rcases hready with h | h
      · rw [World.nextTurn, if_pos h]
      · simp [World.nextTurn, h]
    have hself : (w.mapMatch fun m => { m with roundTotal := m.roundTotal + 1 }) = w.mapMatch fun m' =>
        { m' with roundTotal := m.roundTotal + 1, roundIterator := m.roundIterator, roundEntityid := m.roundEntityid } :=
      World.mapMatch_congr hm rfl
    cases hlength : m.roundList.length with
    | zero => exact ⟨hnone, .noTurn hm hnone (.inl trivial) ⟨_, _, _, hself⟩⟩
    | succ n =>
      rw [nextRoundLoop, wp_bind, wp_getMatch]
      refine ⟨fun m' hm' => ?_, fun h => by rw [hcount] at h; cases h⟩
      obtain rfl : { m with roundTotal := m.roundTotal + 1 } = m' := by rw [hcount] at hm'; cases hm'; rfl
      split
      · rename_i hi hsize
        rcases hready with h | h
        · exact absurd (hsize.symm.trans h) nofun
        · exact absurd (hi.symm.trans h) nofun
      · exact ⟨hnone, .noTurn hm hnone (.inl trivial) ⟨_, _, _, hself⟩⟩
  · obtain ⟨hsize, hiterator⟩ := not_or.1 hready
    obtain ⟨i, hi⟩ := Option.ne_none_iff_exists'.1 hiterator
    have hnext : w.nextTurn m = m.nextPlace (fun e => (w.entityAt e).death) m.roundList.length i := by
      rw [World.nextTurn, if_neg hsize, hi, Option.bind_some]
    refine wp_mono (wp_nextRoundLoop _ hcount hi hsize) ?_ ?_
    · rintro _ w' ⟨j, e, hj, rfl⟩
      refine ⟨j, e, hnext.trans ((hcongr _ _).symm.trans hj), ?_⟩
      rw [hplace, World.turnTo]
      exact World.mapMatch_congr hm rfl
    · rintro f w' ⟨hj, hf, j, e, rfl⟩
      have hnone := hnext.trans ((hcongr _ _).symm.trans hj)
      exact ⟨hnone, .noTurn hm hnone hf ⟨_, _, _, hplace _ _⟩⟩

/-- The next place is that of a living entity of the match. -/
theorem Match.nextPlace_some {m : Match} {dead : ℤ → Bool} {n i j : ℕ} {e : ℤ}
    (h : m.nextPlace dead n i = some (j, e)) :
    e ∈ m.entities ∧ dead e = false ∧ m.roundList[j - 1]? = some e := by
  induction n generalizing i with
  | zero => cases h
  | succ n ih =>
    rw [Match.nextPlace] at h
    split at h
    · cases h
    · rename_i e' hplace
      split_ifs at h with hmem hdead
      · exact ih h
      · cases h
        exact ⟨hmem, Bool.eq_false_of_not_eq_true hdead, hplace⟩

theorem World.nextTurn_some {w : World} {m : Match} {i : ℕ} {e : ℤ} (h : w.nextTurn m = some (i, e)) :
    e ∈ m.entities ∧ (w.entityAt e).death = false ∧ m.roundList[i - 1]? = some e := by
  rw [World.nextTurn] at h
  split_ifs at h
  obtain ⟨k, -, hplace⟩ := Option.bind_eq_some_iff.1 h
  exact Match.nextPlace_some hplace

theorem World.sceneMatch_turnTo {w : World} {m : Match} (hm : w.sceneMatch = some m) (i : ℕ) (e : ℤ) :
    (w.turnTo i e).sceneMatch = some { m with
      roundTotal := m.roundTotal + 1, roundIterator := some i, roundEntityid := some e } := by
  rw [World.turnTo, World.sceneMatch_mapMatch, hm]
  rfl

theorem wp_beginRound {w : World} {m : Match} {e : ℤ} {f : Func} {Q : Unit → World → Prop}
    {E : Fault → World → Prop} (hm : w.sceneMatch = some m) (he : m.roundEntityid = some e)
    (hmem : e ∈ m.entities) (h : wp (roundBegin env act e) Q E (w.note [w.beginRecord m e])) :
    wp (beginRound env act f) Q E w := by
  rw [beginRound, wp_bind, wp_get, wp_bind, wp_getMatch]
  refine ⟨fun m' hm' => ?_, fun hnone => by rw [hm] at hnone; cases hnone⟩
  obtain rfl : m = m' := by rw [hm] at hm'; cases hm'; rfl
  simp only [he]
  rw [wp_ite]
  exact ⟨fun hnot => absurd hmem hnot, fun _ => h⟩

theorem wp_done {w : World} {m : Match} {side : Side} {Q : Unit → World → Prop} {E : Fault → World → Prop}
    (hm : w.sceneMatch = some m) (hdone : m.isdone = false)
    (hok : m.sideVictory = none → Q () (w.decided side))
    (herror : m.sideVictory ≠ none → E (.assertion .done) w) : wp (done side) Q E w := by
  rw [done, wp_bind, wp_getMatch]
  refine ⟨fun m' hm' => ?_, fun hnone => by rw [hm] at hnone; cases hnone⟩
  obtain rfl : m = m' := by rw [hm] at hm'; cases hm'; rfl
  rw [if_pos hdone, wp_bind, wp_assertion]
  exact ⟨hok, herror⟩

theorem World.entityAt_markDead (w : World) (e i : ℤ) :
    (w.markDead e).entityAt i = { w.entityAt i with death := (w.entityAt i).death || decide (i = e) } := by
  by_cases h : i = e
  · subst h
    simp [World.markDead]
  · simp [World.markDead, World.entityAt_setEntity_of_ne _ h, h]

@[simp] theorem World.pack_markDead (w : World) (e i : ℤ) : (w.markDead e).pack i = w.pack i := by
  rw [World.pack, World.entityAt_markDead]
  rfl

section Scripts

variable (hact : ∀ f call w, ∀ a ∈ env.script f call w, (logicTrack adding).Follows (act a))
include hact

/-- Handing over the turn of an entity, after its `round_end`. -/
theorem follows_handOver (e : ℤ) : (logicTrack adding).Follows (do
    let m ← getMatch
    nextRoundEntity
    record (.turnEnd e (m.isdone || m.roundEntityid ≠ some e))
    beginRound env act .roundEnd) := by
  intro w
  rw [wp_bind, wp_getMatch]
  refine ⟨fun m hm => ?_, fun _ => ⟨w, .refl, fun _ => List.suffix_rfl, .plain trivial⟩⟩
  rw [wp_bind]
  refine wp_mono (wp_nextRoundEntity hm) ?_ fun f w' hfail => ⟨w, .refl, fun _ => List.suffix_rfl, hfail.2⟩
  rintro _ w' ⟨i, e', hnext, rfl⟩
  have hm' := World.sceneMatch_turnTo hm i e'
  rw [wp_bind, wp_record]
  refine wp_beginRound hm' rfl (World.nextTurn_some hnext).1 ?_
  have hok : (logicTrack adding).ok w ((w.turnTo i e').note [World.endRecord m e, w.beginRecord m e']) :=
    ⟨.single (.pass hm hnext), ⟨rfl, id, fun _ _ _ _ => rfl⟩, fun _ => rfl⟩
  rw [World.note_note]
  exact wp_trans hok (follows_roundBegin hact e' _)

/-- `Match.round_end` of a match that is not done. -/
theorem wp_matchRoundEnd {w : World} {m : Match} (hm : w.sceneMatch = some m) (hdone : m.isdone = false)
    (e : ℤ) : wp (matchRoundEnd env act fuel e) (fun _ w' => (logicTrack adding).ok w w')
      (fun f w' => (logicTrack adding).error f w w') w := by
  rw [matchRoundEnd, wp_bind, wp_getMatch]
  refine ⟨fun m' hm' => ?_, fun _ => ⟨w, .refl, fun _ => List.suffix_rfl, .plain trivial⟩⟩
  obtain rfl : m = m' := by rw [hm] at hm'; cases hm'; rfl
  rw [wp_bind, wp_assertion]
  refine ⟨fun _ => ?_, fun h => absurd hdone h⟩
  rw [wp_ite]
  refine ⟨fun _ => (logicTrack adding).refl w, fun _ => ?_⟩
  exact Follows.ite (fun _ => (follows_roundEnd hact e).bind fun _ => follows_handOver hact e)
    (fun _ => follows_handOver hact e) w

/-- `to_die`: the death of a living entity is one step together with what `die_entity` decides. -/
theorem follows_toDie (e : ℤ) : (logicTrack adding).Follows (toDie env act fuel e) := by
  intro w
  rw [toDie, wp_bind, wp_get, wp_ite]
  refine ⟨fun _ => (logicTrack adding).refl w, fun hliving => ?_⟩
  have hliving := Bool.eq_false_of_not_eq_true hliving
  rw [wp_bind, wp_modifyEntity, wp_bind, wp_record]
  show wp _ _ _ (w.markDead e)
  have hbracket {w' : World} (hlocked : w'.locked = w.locked) (hearly : w'.early = w.early)
      (hpack' : ∀ i, w'.pack i = w.pack i) : Bracket w w' :=
    ⟨⟨hlocked, fun he => hearly.trans he, fun i _ _ s => by rw [hpack' i]⟩, fun i => by rw [hpack' i]⟩
  split
  · rename_i hscene
    exact ⟨w, .refl, fun _ => List.suffix_rfl, .noScene hliving hscene⟩
  · rename_i s hscene
    have hmatch : (w.markDead e).sceneMatch = s.sceneMatch := by
      show w.sceneMatch = _
      rw [World.sceneMatch, hscene]
      rfl
    have hmatch' : w.sceneMatch = s.sceneMatch := hmatch
    cases hm : s.sceneMatch with
    | none =>
      rw [hm] at hmatch hmatch'
      have hlate : w.late e = false := by rw [World.late, hmatch']
      have hdie : w.die e = w.markDead e := by rw [World.die, hmatch]
      refine ⟨.single ?_, hbracket rfl rfl fun i => w.pack_markDead e i⟩
      rw [← hdie]
      exact .die hliving hlate
    | some m =>
      rw [hm] at hmatch hmatch'
      have hlate : w.late e = (m.isdone || decide (e ∉ m.entities)) := by rw [World.late, hmatch']
      rw [if_pos Option.isSome_some, dieEntity, wp_bind, wp_get, wp_bind, wp_getMatch]
      refine ⟨fun m' hm' => ?_, fun hnone => by rw [hmatch] at hnone; cases hnone⟩
      obtain rfl : m = m' := by rw [hmatch] at hm'; cases hm'; rfl
      -- The three assertions: a late death fails the first or the second one, none fails the third.
      have hfail (h : w.late e = true) : (logicTrack adding).error (.assertion .dieEntity) w (w.markDead e) :=
        ⟨w, .refl, fun _ => List.suffix_rfl, .late hliving h⟩
      rw [wp_bind, wp_assertion]
      refine ⟨fun hdone => ?_, fun hdone => hfail (by simp [hlate, Bool.eq_true_of_not_eq_false hdone])⟩
      rw [wp_bind, wp_assertion]
      refine ⟨fun hmem => ?_, fun hmem => hfail (by simp [hlate, hmem])⟩
      rw [wp_bind, wp_assertion]
      refine ⟨fun _ => ?_, fun hdeath => absurd (by simp [World.markDead]) hdeath⟩
      have hlate : w.late e = false := by simp [hlate, hdone, hmem]
      have hstep : Step adding w (w.die e) := .die hliving hlate
      have hdecided {side : Side} (hwinner : (w.markDead e).winner m = some side) :
          wp (done side) (fun _ w' => (logicTrack adding).ok w w')
            (fun f w' => (logicTrack adding).error f w w') (w.markDead e) := by
        have hdie : w.die e = (w.markDead e).decided side := by simp only [World.die, hmatch, hwinner]
        refine wp_done hmatch hdone (fun _ => ?_) fun hvictory => ?_
        · rw [← hdie]
          refine ⟨.single hstep, ?_⟩
          rw [hdie]
          exact hbracket rfl rfl fun i => w.pack_markDead e i
        · exact ⟨w, .refl, fun _ => List.suffix_rfl, .undone hlate hmatch' hdone hvictory⟩
      rw [wp_ite]
      refine ⟨fun hwon => ?_, fun hopen => ?_⟩
      · -- One side has no living entity left.
        by_cases hallies : (w.markDead e).livingEntitySize m .allies = 0
        · rw [if_pos hallies]
          exact hdecided (by rw [World.winner, if_pos hallies])
        · rw [if_neg hallies]
          exact hdecided (by rw [World.winner, if_neg hallies, if_pos (hwon.resolve_left hallies)])
      · have hdie : w.die e = w.markDead e := by
          obtain ⟨hallies, henemy⟩ := not_or.1 hopen
          simp only [World.die, hmatch, World.winner, if_neg hallies, if_neg henemy]
        have hok : (logicTrack adding).ok w (w.markDead e) := by
          rw [hdie] at hstep
          exact ⟨.single hstep, hbracket rfl rfl fun i => w.pack_markDead e i⟩
        rw [wp_ite]
        exact ⟨fun _ => wp_trans hok (wp_matchRoundEnd hact hmatch hdone e), fun _ => hok⟩

theorem follows_hpAdd (e value : ℤ) : (logicTrack adding).Follows (hpAdd env act fuel e value) := by
  refine Follows.ite (fun _ => follows_pure _) fun _ => ?_
  refine (follows_of_quiet (quiet_modifyPack ?_ ?_ ?_)).bind fun _ => ?_
  · intro p
    rfl
  · intro p hp
    exact hp
  · intro p
    rfl
  have hrest : (logicTrack adding).Follows (do
      if (← getPack e).hp = 0 then toDie env act fuel e) :=
    (follows_of_quiet (quiet_getPack e)).bind fun p =>
      Follows.ite (fun _ => follows_toDie hact e) fun _ => follows_pure _
  refine Follows.ite (fun _ => ?_) fun _ => hrest
  exact (follows_breakpoint hact _ _ _ _).bind fun _ => hrest

end Scripts

end Slam.Game
