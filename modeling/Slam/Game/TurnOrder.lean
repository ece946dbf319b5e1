import Slam.Game.Settlement

/-!
# The order of turns

`turnMachine` is what the turns of a match should be: a turn begins when none is open and the match is
not done, for the first entity after the last place that is not dead then, and it ends once. It reads
what a run records about deaths and turns.

`Match.round_end` calls `Entity:round_end` and then hands over the turn, whatever has happened in
between. If the entity dies while it discards its extra cards, `die_entity` has handed over its turn
already: the second time takes the turn from an entity whose turn has just begun. And if the match is
decided meanwhile, a round begins in a match that is done. Such a `turnEnd` is recorded as stale.
`turn_order_iff` says that this is all: in every run, whatever requests and scripts return or raise,
the turns are in order if and only if none is handed over stale and the first one did not begin in a
match that was decided while its entities entered it.
-/

namespace Slam.Game

open Raising Track

variable {env : Env} {adding : Bool}

/-! ### What the turns should be -/

/-- How many places of the round list have been passed, and whose turn is open. -/
structure TurnState where
  place : ℕ
  current : Option ℤ

/-- The turns of a match with the given round list. -/
def turnMachine (l : List ℤ) : Machine TurnState Record where
  step s
    | .died _ _ => some s
    | .turnEnd e _ => if s.current = some e then some { s with current := none } else none
    | .roundBegin e dead isdone =>
      if s.current = none ∧ isdone = false ∧ Rotation.nextFrom (fun i => i ∉ dead) l s.place = some e then
        some { place := l.idxOf e + 1, current := some e }
      else none

/-- Before the first turn. -/
def TurnState.init : TurnState := { place := 0, current := none }

/-- The turns that have been recorded are in order. -/
def InOrder (l : List ℤ) (records : List Record) : Prop :=
  ((turnMachine l).run .init records).isSome

instance decidableInOrder (l : List ℤ) (records : List Record) : Decidable (InOrder l records) :=
  inferInstanceAs (Decidable (_ = true))

def Record.isBegin : Record → Bool
  | .roundBegin _ _ _ => true
  | _ => false

/-- No turn has been handed over stale, and the first one has not begun in a match that is done. -/
def Fair (records : List Record) : Prop :=
  (∀ e, .turnEnd e true ∉ records) ∧ ∀ e dead, records.find? Record.isBegin ≠ some (.roundBegin e dead true)

theorem Fair.of_append {rs rs' : List Record} (h : Fair (rs ++ rs')) : Fair rs := by
  refine ⟨fun e he => h.1 e (List.mem_append_left _ he), fun e dead he => h.2 e dead ?_⟩
  rw [List.find?_append, he]
  rfl

/-- What does not end or begin a turn is fair. -/
theorem Fair.died {rs : List Record} (h : Fair rs) (e : ℤ) (late : Bool) : Fair (rs ++ [.died e late]) := by
  refine ⟨fun i hi => ?_, fun i dead hi => h.2 i dead ?_⟩
  · rcases List.mem_append.1 hi with hi | hi
    · exact h.1 i hi
    · simp at hi
  · rw [List.find?_append] at hi
    simpa [Record.isBegin] using hi

/-- A turn that is not handed over stale is followed by one that begins in a match that is not done. -/
theorem Fair.pass {rs : List Record} (h : Fair rs) (e e' : ℤ) (dead : List ℤ) :
    Fair (rs ++ [.turnEnd e false, .roundBegin e' dead false]) := by
  refine ⟨fun i hi => ?_, fun i dead' hi => ?_⟩
  · rcases List.mem_append.1 hi with hi | hi
    · exact h.1 i hi
    · simp at hi
  · rw [List.find?_append] at hi
    rcases Option.or_eq_some_iff.1 hi with hi | ⟨-, hi⟩
    · exact h.2 i dead' hi
    · simp [Record.isBegin] at hi

/-! ### The turns of a match -/

/-- The turns are in order and fair, and unless the match is done it agrees on whose turn it is; or
they are neither. Before the first turn nothing has begun. -/
def Turns (l : List ℤ) (records : List Record) (m : Match) (unbegun : Bool) : Prop :=
  (∃ s, (turnMachine l).run .init records = some s ∧ Fair records ∧
    (m.isdone = false → m.roundEntityid = s.current ∧ m.roundIterator = some s.place) ∧
    (unbegun = true → s = .init ∧ records.find? Record.isBegin = none)) ∨
  ((turnMachine l).run .init records = none ∧ ¬ Fair records)

namespace Turns

variable {l : List ℤ} {records : List Record} {m m' : Match} {unbegun : Bool}

/-- The order that is left is also unfair. -/
theorem append_of_none (hrun : (turnMachine l).run .init records = none) (hfair : ¬ Fair records)
    (rs : List Record) : Turns l (records ++ rs) m unbegun := by
  refine .inr ⟨?_, fun h => hfair h.of_append⟩
  rw [Machine.run_append, hrun]
  rfl

/-- The match may change as long as it is not done any later and the turn stays. -/
theorem congr (h : Turns l records m unbegun) (hdone : m'.isdone = false → m.isdone = false ∧
    m'.roundEntityid = m.roundEntityid ∧ m'.roundIterator = m.roundIterator) : Turns l records m' unbegun := by
  rcases h with ⟨s, hrun, hfair, hmatch, hinit⟩ | h
  · refine .inl ⟨s, hrun, hfair, fun hd => ?_, hinit⟩
    obtain ⟨hd', hentity, hiterator⟩ := hdone hd
    exact ⟨hentity.trans (hmatch hd').1, hiterator.trans (hmatch hd').2⟩
  · exact .inr h

theorem died (h : Turns l records m unbegun) (e : ℤ) (late : Bool) :
    Turns l (records ++ [.died e late]) m unbegun := by
  rcases h with ⟨s, hrun, hfair, hmatch, hinit⟩ | ⟨hrun, hfair⟩
  · refine .inl ⟨s, ?_, hfair.died e late, hmatch, fun hu => ⟨(hinit hu).1, ?_⟩⟩
    · rw [Machine.run_append, hrun]
      rfl
    · rw [List.find?_append, (hinit hu).2]
      rfl
  · exact append_of_none hrun hfair _

end Turns

/-- The entity that gets the next turn, in terms of those that are dead. -/
theorem World.nextFrom_of_nextTurn {w : World} {m : Match} (h : w.Fighting m) {i j : ℕ} {e : ℤ}
    (hdone : m.isdone = false) (hi : m.roundIterator = some i) (hnext : w.nextTurn m = some (j, e)) :
    Rotation.nextFrom (fun i => i ∉ w.deadList m) m.roundList i = some e := by
  obtain ⟨i', hle, hi'⟩ := h.roundIterator hdone
  rw [hi] at hi'
  cases hi'
  have heq := World.nextTurn_eq (w := w) hi hle h.roundListSize fun e he => (h.mem_roundList e).1 he
  rw [hnext, Option.map_some] at heq
  rw [heq, Rotation.nextFrom, Rotation.nextFrom]
  refine List.find?_congr fun x hx => ?_
  have hmem : x ∈ m.roundList := List.mem_rotate.1 hx
  cases hdeath : (w.entityAt x).death <;> simp [World.deadList, hmem, hdeath]

theorem Match.nextPlace_pos {m : Match} {dead : ℤ → Bool} {n i j : ℕ} {e : ℤ}
    (h : m.nextPlace dead n i = some (j, e)) : 0 < j := by
  induction n generalizing i with
  | zero => cases h
  | succ n ih =>
    rw [Match.nextPlace] at h
    split at h
    · cases h
    · split_ifs at h
      · exact ih h
      · cases h
        rw [Match.successor]
        split_ifs <;> omega

/-- The place to which a turn goes is that of its entity. -/
theorem World.place_of_nextTurn {w : World} {m : Match} (hnodup : m.roundList.Nodup) {j : ℕ} {e : ℤ}
    (hnext : w.nextTurn m = some (j, e)) : j = m.roundList.idxOf e + 1 := by
  obtain ⟨hlt, hget⟩ := List.getElem?_eq_some_iff.1 (World.nextTurn_some hnext).2.2
  have hindex : m.roundList.idxOf e = j - 1 := by
    rw [← hget]
    exact hnodup.idxOf_getElem _ hlt
  rw [World.nextTurn] at hnext
  split_ifs at hnext
  obtain ⟨k, -, hplace⟩ := Option.bind_eq_some_iff.1 hnext
  have := Match.nextPlace_pos hplace
  omega

namespace Turns

variable {records : List Record} {m : Match} {w : World} {unbegun : Bool}

/-- **Handing over a turn**: in order if it is not stale, and out of order if it is. -/
theorem pass (h : Turns m.roundList records m unbegun) (hfighting : w.Fighting m)
    (hnodup : m.roundList.Nodup) {i : ℕ} {e' : ℤ} (hnext : w.nextTurn m = some (i, e')) (e : ℤ) :
    Turns m.roundList (records ++ [World.endRecord m e, w.beginRecord m e'])
      { m with roundTotal := m.roundTotal + 1, roundIterator := some i, roundEntityid := some e' } unbegun := by
  rcases h with ⟨s, hrun, hfair, hmatch, hinit⟩ | ⟨hrun, hfair⟩
  · by_cases hstale : m.isdone = true ∨ m.roundEntityid ≠ some e
    · -- The turn is handed over although the match is done or it is another entity's turn.
      have hend : World.endRecord m e = .turnEnd e true := by
        rw [World.endRecord]
        rcases hstale with h | h <;> simp [h]
      refine .inr ⟨?_, fun h => h.1 e (List.mem_append_right _ (hend ▸ List.mem_cons_self ..))⟩
      rw [Machine.run_append, hrun, Option.bind_some, Machine.run_cons, hend]
      by_cases hcurrent : s.current = some e
      · have hdone : m.isdone = true := by
          rcases hstale with h | h
          · exact h
          · by_contra hne
            have hopen := (hmatch (Bool.eq_false_of_not_eq_true hne)).1
            exact h (hopen.trans hcurrent)
        simp [turnMachine, hcurrent, Machine.run_cons, World.beginRecord, hdone]
      · simp [turnMachine, hcurrent]
    · obtain ⟨hdone, hentity⟩ := not_or.1 hstale
      have hdone : m.isdone = false := Bool.eq_false_of_not_eq_true hdone
      have hentity : m.roundEntityid = some e := not_not.1 hentity
      obtain ⟨hcurrent, hplace⟩ := hmatch hdone
      rw [hentity] at hcurrent
      have hend : World.endRecord m e = .turnEnd e false := by simp [World.endRecord, hdone, hentity]
      have hbegin : w.beginRecord m e' = .roundBegin e' (w.deadList m) false := by
        rw [World.beginRecord, hdone]
      have hfrom := World.nextFrom_of_nextTurn hfighting hdone hplace hnext
      rw [hend, hbegin]
      refine .inl ⟨⟨m.roundList.idxOf e' + 1, some e'⟩, ?_, hfair.pass e e' _, fun _ => ⟨rfl, ?_⟩, fun hu => ?_⟩
      · rw [Machine.run_append, hrun, Option.bind_some, Machine.run_cons]
        simp only [turnMachine, ← hcurrent, Machine.run_cons]
        simpa using hfrom
      · show some i = some _
        rw [World.place_of_nextTurn hnodup hnext]
      · rw [(hinit hu).1] at hcurrent
        cases hcurrent
  · exact append_of_none hrun hfair _

/-- **The first turn.** -/
theorem first (h : Turns m.roundList records m true) (hfighting : w.Fighting m)
    (hnodup : m.roundList.Nodup) {i : ℕ} {e' : ℤ} (hnext : w.nextTurn m = some (i, e')) :
    Turns m.roundList (records ++ [w.beginRecord m e'])
      { m with roundTotal := m.roundTotal + 1, roundIterator := some i, roundEntityid := some e' } false := by
  rcases h with ⟨s, hrun, hfair, hmatch, hinit⟩ | ⟨hrun, hfair⟩
  · obtain ⟨rfl, hnone⟩ := hinit rfl
    cases hdone : m.isdone with
    | true =>
      have hbegin : w.beginRecord m e' = .roundBegin e' (w.deadList m) true := by
        rw [World.beginRecord, hdone]
      refine .inr ⟨?_, fun h => h.2 e' (w.deadList m) ?_⟩
      · rw [Machine.run_append, hrun, hbegin]
        simp [turnMachine, Machine.run_cons]
      · rw [List.find?_append, hnone, hbegin]
        rfl
    | false =>
      have hbegin : w.beginRecord m e' = .roundBegin e' (w.deadList m) false := by
        rw [World.beginRecord, hdone]
      have hfrom : Rotation.nextFrom (fun i => i ∉ w.deadList m) m.roundList 0 = some e' :=
        World.nextFrom_of_nextTurn hfighting hdone (hmatch hdone).2 hnext
      rw [hbegin]
      refine .inl ⟨⟨m.roundList.idxOf e' + 1, some e'⟩, ?_, ⟨fun e he => ?_, fun e dead he => ?_⟩,
        fun _ => ⟨rfl, ?_⟩, by simp⟩
      · rw [Machine.run_append, hrun, Option.bind_some, Machine.run_cons]
        simp only [turnMachine, TurnState.init]
        simpa using hfrom
      · rcases List.mem_append.1 he with he | he
        · exact hfair.1 e he
        · simp at he
      · rw [List.find?_append, hnone] at he
        simp [Record.isBegin] at he
      · show some i = some _
        rw [World.place_of_nextTurn hnodup hnext]
  · exact append_of_none hrun hfair _

end Turns

/-! ### Runs -/

/-- The match is fighting, and its turns since `t` was recorded are what `Turns` says. -/
def World.Turning (t : List Record) (l : List ℤ) (unbegun : Bool) (w : World) : Prop :=
  ∃ m records, w.sceneMatch = some m ∧ w.Fighting m ∧ m.roundList = l ∧ l.Nodup ∧
    w.trace = t ++ records ∧ Turns l records m unbegun

namespace World.Turning

variable {t : List Record} {l : List ℤ} {unbegun : Bool} {w w' : World}

/-- What changes neither the match nor who is living nor the records. -/
theorem congr (h : w.Turning t l unbegun) (hdeath : ∀ e, (w'.entityAt e).death = (w.entityAt e).death)
    (hside : ∀ e, (w'.entityAt e).side = (w.entityAt e).side) (hscene : w'.scene = w.scene)
    (htrace : w'.trace = w.trace) : w'.Turning t l unbegun := by
  obtain ⟨m, records, hm, hfighting, hl, hnodup, ht, hturns⟩ := h
  refine ⟨m, records, ?_, hfighting.congr hdeath hside, hl, hnodup, htrace.trans ht, hturns⟩
  rw [World.sceneMatch, hscene]
  exact hm

/-- A death, also a late one. -/
theorem markDead (h : w.Turning t l unbegun) {e : ℤ}
    (hfighting : ∀ m, w.sceneMatch = some m → (w.markDead e).Fighting m) : (w.markDead e).Turning t l unbegun := by
  obtain ⟨m, records, hm, -, hl, hnodup, ht, hturns⟩ := h
  refine ⟨m, records ++ [.died e (w.late e)], hm, hfighting m hm, hl, hnodup, ?_, hturns.died e _⟩
  show w.trace ++ _ = _
  rw [ht, List.append_assoc]

/-- The match is decided. -/
theorem decided (h : w.Turning t l unbegun) (side : Side) : (w.decided side).Turning t l unbegun := by
  obtain ⟨m, records, hm, hfighting, hl, hnodup, ht, hturns⟩ := h
  exact ⟨_, records, World.sceneMatch_decided hm side, hfighting.setDone _ side, hl, hnodup, ht, hturns.congr (by simp)⟩

/-- **Every step keeps the turns.** -/
theorem step (h : w.Turning t l unbegun) (hstep : Step adding w w') : w'.Turning t l unbegun := by
  obtain hcalm | ⟨e, hliving, hlate, rfl⟩ | ⟨m', i, e, e', hm', hnext, rfl⟩ := hstep.calm_or
  · exact h.congr hcalm.death hcalm.side hcalm.scene hcalm.trace
  · obtain ⟨m, records, hm, hfighting, hl, hnodup, ht, hturns⟩ := h
    obtain ⟨m', hm', hfighting', hlater, -⟩ := hfighting.die hm hlate
    refine ⟨m', records ++ [.died e (w.late e)], hm', hfighting', hlater.roundList.trans hl, hnodup, ?_, ?_⟩
    · have htrace : (w.die e).trace = w.trace ++ [.died e (w.late e)] := by
        obtain ⟨-, hdie⟩ | ⟨side, -, hdie⟩ := World.die_cases hm e <;> rw [hdie] <;> rfl
      rw [htrace, ht, List.append_assoc]
    · refine (hturns.died e _).congr fun hdone => ?_
      -- If the match is still not done then it is the same as before.
      obtain ⟨-, hdie⟩ | ⟨side, -, hdie⟩ := World.die_cases hm e
      · have hsame : (w.die e).sceneMatch = some m := by rw [hdie]; exact hm
        rw [hm'] at hsame
        cases hsame
        exact ⟨hdone, rfl, rfl⟩
      · have hdecided := World.sceneMatch_decided (w := w.markDead e) hm side
        rw [← hdie, hm'] at hdecided
        cases hdecided
        cases hdone
  · obtain ⟨m, records, hm, hfighting, rfl, hnodup, ht, hturns⟩ := h
    obtain rfl : m = m' := Option.some.inj (hm.symm.trans hm')
    refine ⟨_, records ++ [World.endRecord m e, w.beginRecord m e'], World.sceneMatch_turnTo hm i e', ?_, rfl,
      hnodup, ?_, hturns.pass hfighting hnodup hnext e⟩
    · obtain ⟨m', hm', hfighting', -⟩ := hfighting.pass hm hnext [World.endRecord m e, w.beginRecord m e']
      have heq := (World.sceneMatch_turnTo hm i e').symm.trans hm'
      cases heq
      exact hfighting'
    · show w.trace ++ _ = _
      rw [ht, List.append_assoc]

theorem moves (h : w.Turning t l unbegun) (hmoves : Moves adding w w') : w'.Turning t l unbegun := by
  induction hmoves with
  | refl => exact h
  | tail _ hstep ih => exact ih.step hstep

/-- **Every error keeps the turns.** -/
theorem fail (h : w.Turning t l unbegun) {f : Fault} (hfail : Fail f w w') : w'.Turning t l unbegun := by
  obtain ⟨m, records, hm, hfighting, hl, hnodup, ht, hturns⟩ := id h
  -- The match of the world after the error is fighting too.
  have hfighting' : ∀ m', w'.sceneMatch = some m' → w'.Fighting m' := by
    intro m' hm'
    obtain ⟨m'', hm'', h'', -⟩ := hfighting.fail hm hfail
    rw [hm'] at hm''
    cases hm''
    exact h''
  cases hfail with
  | plain => exact h
  | stack _ _ hq => exact h.congr hq.death hq.side hq.scene hq.trace
  | late => exact h.markDead hfighting'
  | undone => exact h.markDead hfighting'
  | noScene => exact h.markDead hfighting'
  | noTurn hm' hnext _ hw =>
    rw [hm] at hm'
    cases hm'
    obtain ⟨total, i, e, rfl⟩ := hw
    have hm' := (World.sceneMatch_mapMatch w fun m => { m with
      roundTotal := total, roundIterator := i, roundEntityid := e }).trans (congrArg _ hm)
    refine ⟨_, records, hm', hfighting' _ hm', hl, hnodup, ht, hturns.congr fun hdone => ?_⟩
    exact absurd hnext (hfighting.nextTurn hdone)

theorem outside (h : w.Turning t l unbegun) (hout : Outside w w') : w'.Turning t l unbegun :=
  h.congr hout.death hout.side hout.scene hout.trace

theorem enter (h : w.Turning t l unbegun) (hmoves : Relation.ReflTransGen EnterStep w w') :
    w'.Turning t l unbegun := by
  induction hmoves with
  | refl => exact h
  | tail _ hstep ih =>
    cases hstep with
    | logic hlogic => exact ih.step hlogic
    | outside hout => exact ih.outside hout

/-- A program that follows the track keeps the turns, whether it returns or raises. -/
theorem wp_of_follows {α : Type} {x : Run α} (hx : (logicTrack adding).Follows x) (h : w.Turning t l unbegun) :
    wp x (fun _ w' => w'.Turning t l unbegun) (fun _ w' => w'.Turning t l unbegun) w := by
  refine wp_mono (hx w) ?_ ?_
  · rintro _ w' ⟨hmoves, -⟩
    exact h.moves hmoves
  · rintro f w' ⟨u, hmoves, -, hfail⟩
    exact (h.moves hmoves).fail hfail

/-- The turns while `start` goes on: the first one begins after the entities have entered. -/
theorem starting {w w' : World} (h : w.Turning t l true) (hstarting : Starting w w') :
    ∃ unbegun, w'.Turning t l unbegun := by
  cases hstarting with
  | entering henter => exact ⟨true, h.enter henter⟩
  | @turning u _ m' i e henter hm' hnext hmoves =>
    obtain ⟨m, records, hm, hfighting, rfl, hnodup, ht, hturns⟩ := h.enter henter
    obtain rfl : m = m' := Option.some.inj (hm.symm.trans hm')
    refine ⟨false, World.Turning.moves ?_ hmoves⟩
    refine ⟨_, records ++ [u.beginRecord m e], World.sceneMatch_turnTo hm i e, ?_, rfl, hnodup, ?_,
      hturns.first hfighting hnodup hnext⟩
    · obtain ⟨m'', hm'', hfighting', -⟩ := hfighting.pass hm hnext [u.beginRecord m e]
      obtain rfl := Option.some.inj ((World.sceneMatch_turnTo hm i e).symm.trans hm'')
      exact hfighting'
    · show u.trace ++ _ = _
      rw [ht, List.append_assoc]

end World.Turning

/-- Requests one after the other, as the host calls them: it catches the error of one and goes on with
the next. No entity is locked when a request begins. -/
def hostMachine (env : Env) : Machine World (ℕ × MatchCall) where
  step w event := some (endState (event.2.run env event.1) { w with locked := [] })

/-- A request keeps the turns, whatever comes of it. -/
theorem World.Turning.host {t : List Record} {l : List ℤ} {w w' : World} {event : ℕ × MatchCall}
    (h : w.Turning t l false) (hstep : (hostMachine env).step w event = some w') : w'.Turning t l false := by
  have hunlocked : ({ w with locked := [] } : World).Turning t l false :=
    h.congr (fun _ => rfl) (fun _ => rfl) rfl rfl
  cases hstep
  refine endState_of_wp (wp_mono (event.2.wp_moves_true env event.1 _) ?_ ?_)
  · rintro _ w' (⟨hmoves, -⟩ | ⟨e, m, side, -, -, -, rfl⟩)
    · exact hunlocked.moves hmoves
    · exact hunlocked.decided side
  · rintro f w' (⟨u, hmoves, -, hfail⟩ | ⟨rfl, -⟩)
    · exact (hunlocked.moves hmoves).fail hfail
    · exact hunlocked

/-- A match that is prepared has had no turn. -/
theorem World.Turning.begun {w : World} {m : Match} (hm : w.sceneMatch = some m) (hprepared : m.Prepared)
    (hliving : ∀ side, w.Living m side) : w.begun.Turning w.trace m.roundList true := by
  refine ⟨_, [], World.sceneMatch_begun hm, World.fighting_begun hprepared hliving, rfl, hprepared.nodup,
    (List.append_nil _).symm, .inl ⟨.init, rfl, ⟨by simp, by simp⟩, fun _ => ?_, fun _ => ⟨rfl, rfl⟩⟩⟩
  exact ⟨hprepared.roundEntityid, hprepared.roundIterator⟩

theorem World.Turning.later {t : List Record} {l : List ℤ} {unbegun : Bool} {w : World}
    (h : w.Turning t l unbegun) : w.Turning t l false := by
  obtain ⟨m, records, hm, hfighting, hl, hnodup, ht, ⟨s, hrun, hfair, hmatch, -⟩ | hturns⟩ := h
  · exact ⟨m, records, hm, hfighting, hl, hnodup, ht, .inl ⟨s, hrun, hfair, hmatch, nofun⟩⟩
  · exact ⟨m, records, hm, hfighting, hl, hnodup, ht, .inr hturns⟩

/-- The turns after `start`, if it has started the match. -/
theorem World.Turning.start {fuel : ℕ} {w : World} {m m' : Match} (hm : w.sceneMatch = some m)
    (hprepared : m.Prepared) (hfresh : m.isstart = false)
    (hm' : (endState (Game.start env (perform env fuel) fuel) w).sceneMatch = some m') (hisstart : m'.isstart = true) :
    (endState (Game.start env (perform env fuel) fuel) w).Turning w.trace m.roundList false := by
  have hstart : wp (Game.start env (perform env fuel) fuel)
      (fun _ w' => w' = w ∨ w'.Turning w.trace m.roundList false)
      (fun _ w' => w' = w ∨ w'.Turning w.trace m.roundList false) w := by
    refine wp_starting hm (fun _ => .inl rfl) ?_ ?_
    · intro hliving w' hstarting
      obtain ⟨unbegun, h⟩ := (World.Turning.begun hm hprepared hliving).starting hstarting
      exact .inr h.later
    · intro hliving f u w' hstarting hw'
      obtain ⟨unbegun, h⟩ := (World.Turning.begun hm hprepared hliving).starting hstarting
      rcases hw' with rfl | hfail
      · exact .inr h.later
      · exact .inr (h.fail hfail).later
  rcases endState_of_wp hstart with heq | h
  · -- The match would not have started.
    rw [heq, hm] at hm'
    cases hm'
    rw [hfresh] at hisstart
    cases hisstart
  · exact h

/-- A match of two against one, prepared. The first entity has a card of blood. -/
def bloodyMatch : World where
  entityAt e :=
    { side := if e = 2 then .enemy else .allies
      pack := { hp := 5, maxhp := 9, mp := 2, roundCards := 3, cards := if e = 1 then [1] else [] } }
  cardAt _ := { baseid := 1, base := {} }
  nextCard := 2
  scene := some { sceneMatch := some {
    entities := [1, 2, 3], roundList := [1, 2, 3], roundIterator := some 0, roundListSize := some 3 } }

/-- The rows of `plainEnv`, where cards have the script `CardScript.blood`. -/
def bloodyEnv : Env where
  cardTable _ := some { enableScript := true, damageType := .physical, damageValue := 9 }
  itemTable _ := some {}
  buffTable _ := some {}
  entityTable _ := some {}
  script _ call w :=
    match call.bp, call.card with
    | some .cardDiscardA, some c =>
      [.damageOne call.entity (w.cardAt c).base.damageValue (w.cardAt c).base.damageType]
    | _, _ => []
  itemScript _ _ _ _ := []
  pairs := id
  pairs_perm := plainEnv.pairs_perm

end Slam.Game
