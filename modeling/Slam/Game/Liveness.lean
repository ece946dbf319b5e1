import Slam.Game.Follow.Settle
import Slam.Lib.Machine
import Slam.Lib.Rotation

/-!
# Deaths and the end of a match

As long as a match is not done, both sides have a living entity, and so the search for the next turn
ends. This is `World.Fighting`, and it survives every step and every error: an entity of the match
that dies is counted by `die_entity` in the same step, and a death that comes too late for that is one
in a match that is done already.

`match_living` is about runs of requests that all return, from `Match.start` on. A match is decided
at most once, and if `die_entity` decides it then the winning side is living and the other is not.
-/

namespace Slam.Game

open Raising Track

variable {env : Env} {adding : Bool}

/-! ### What a step may do to a match -/

/-- An entity without its pack and its random numbers. -/
def Entity.bare (x : Entity) : Entity := { x with seed := 0, pack := {} }

/-- A change that is neither a death nor a turn. -/
structure Calm (w w' : World) : Prop where
  bare : ∀ e, (w'.entityAt e).bare = (w.entityAt e).bare
  span : ∀ e, (w'.pack e).span = (w.pack e).span
  maxhp : ∀ e, 0 ≤ (w.pack e).maxhp → 0 ≤ (w'.pack e).maxhp
  scene : w'.scene = w.scene
  trace : w'.trace = w.trace

namespace Calm

variable {w w' : World}

theorem sceneMatch (h : Calm w w') : w'.sceneMatch = w.sceneMatch := by
  rw [World.sceneMatch, World.sceneMatch, h.scene]

theorem death (h : Calm w w') (e : ℤ) : (w'.entityAt e).death = (w.entityAt e).death :=
  (congrArg Entity.death (h.bare e) :)

theorem side (h : Calm w w') (e : ℤ) : (w'.entityAt e).side = (w.entityAt e).side :=
  (congrArg Entity.side (h.bare e) :)

theorem backup (h : Calm w w') (e : ℤ) : (w'.entityAt e).backup = (w.entityAt e).backup :=
  (congrArg Entity.backup (h.bare e) :)

theorem of_quiet (h : Quiet w w') : Calm w w' where
  bare e := (congrArg Entity.bare (h.core e) :)
  span e := (congrArg Pack.span (h.packCore e) :)
  maxhp := h.maxhp
  scene := h.scene
  trace := h.trace

theorem trans {w'' : World} (h : Calm w w') (h' : Calm w' w'') : Calm w w'' where
  bare e := (h'.bare e).trans (h.bare e)
  span e := (h'.span e).trans (h.span e)
  maxhp e hm := h'.maxhp e (h.maxhp e hm)
  scene := h'.scene.trans h.scene
  trace := h'.trace.trans h.trace

theorem setPack {e : ℤ} {p : Pack} (hspan : p.span = (w.pack e).span)
    (hmaxhp : p.maxhp = (w.pack e).maxhp) : Calm w (w.setPack e p) where
  bare i := by rw [World.entityAt_setPack]; rfl
  span i := by
    by_cases hi : i = e
    · subst hi
      simpa using hspan
    · rw [World.pack_setPack_of_ne _ hi]
  maxhp i := by
    by_cases hi : i = e
    · subst hi
      rw [World.pack_setPack_self, hmaxhp]
      exact id
    · rw [World.pack_setPack_of_ne _ hi]
      exact id
  scene := rfl
  trace := rfl

theorem touch (w : World) (e : ℤ) : Calm w (w.touch e) := ⟨fun _ => rfl, fun _ => rfl, fun _ => id, rfl, rfl⟩

end Calm

theorem Stack.span_set (s : Stack) (p : Pack) (cards : List ℤ) : (s.set p cards).span = p.span := by
  cases s <;> rfl

theorem Stack.maxhp_set (s : Stack) (p : Pack) (cards : List ℤ) : (s.set p cards).maxhp = p.maxhp := by
  cases s <;> rfl

/-- A step is a death, hands over a turn, or is calm. -/
theorem Step.calm_or {w w' : World} (h : Step adding w w') :
    Calm w w' ∨
    (∃ e, (w.entityAt e).death = false ∧ w.late e = false ∧ w' = w.die e) ∨
    ∃ m i e e', w.sceneMatch = some m ∧ w.nextTurn m = some (i, e') ∧
      w' = (w.turnTo i e').note [World.endRecord m e, w.beginRecord m e'] := by
  cases h with
  | quiet h => exact .inl (.of_quiet h)
  | shift =>
    refine .inl ((Calm.touch w _).trans (.setPack ?_ ?_))
    · simp only [Pack.shift, Stack.span_set]
      rfl
    · simp only [Pack.shift, Stack.maxhp_set]
      rfl
  | newone h => exact .inl (((Calm.of_quiet h).trans (.touch _ _)).trans (.setPack rfl rfl))
  | addCard _ h => exact .inl ((Calm.of_quiet h).trans (.setPack rfl rfl))
  | leave => exact .inl ((Calm.touch w _).trans (.setPack rfl rfl))
  | file =>
    refine .inl ((Calm.touch w _).trans (.setPack ?_ ?_))
    · simp only [Pack.file, Stack.span_set]
      rfl
    · simp only [Pack.file, Stack.maxhp_set]
      rfl
  | destroy => exact .inl (.setPack rfl rfl)
  | lock => exact .inl ⟨fun _ => rfl, fun _ => rfl, fun _ => id, rfl, rfl⟩
  | unlock => exact .inl ⟨fun _ => rfl, fun _ => rfl, fun _ => id, rfl, rfl⟩
  | die hliving hlate => exact .inr (.inl ⟨_, hliving, hlate, rfl⟩)
  | pass hm hnext => exact .inr (.inr ⟨_, _, _, _, hm, hnext, rfl⟩)

/-! ### Who is living -/

/-- A side has a living entity in the match. -/
def World.Living (w : World) (m : Match) (side : Side) : Prop :=
  ∃ e ∈ m.entities, (w.entityAt e).side = side ∧ (w.entityAt e).death = false

theorem World.livingEntitySize_eq_zero {w : World} {m : Match} {side : Side} :
    w.livingEntitySize m side = 0 ↔ ¬ w.Living m side := by
  simp [World.livingEntitySize, World.Living, List.length_eq_zero_iff, List.filter_eq_nil_iff]

theorem World.winner_eq_none {w : World} {m : Match} :
    w.winner m = none ↔ ∀ side, w.Living m side := by
  constructor
  · intro h side
    rw [World.winner] at h
    split_ifs at h with hallies henemy
    cases side with
    | allies => exact not_not.1 (mt World.livingEntitySize_eq_zero.2 hallies)
    | enemy => exact not_not.1 (mt World.livingEntitySize_eq_zero.2 henemy)
  · intro h
    rw [World.winner, if_neg fun h0 => World.livingEntitySize_eq_zero.1 h0 (h _),
      if_neg fun h0 => World.livingEntitySize_eq_zero.1 h0 (h _)]

/-- The winner's opponents are dead. -/
theorem World.not_living_of_winner {w : World} {m : Match} {side : Side} (h : w.winner m = some side) :
    ¬ w.Living m side.other := by
  rw [World.winner] at h
  split_ifs at h with hallies henemy
  · cases h
    exact World.livingEntitySize_eq_zero.1 hallies
  · cases h
    exact World.livingEntitySize_eq_zero.1 henemy

/-- A death takes a living entity from one side only. -/
theorem World.living_markDead_of_side_ne {w : World} {m : Match} {e : ℤ} {side : Side}
    (h : w.Living m side) (hside : (w.entityAt e).side ≠ side) : (w.markDead e).Living m side := by
  obtain ⟨i, hi, hside', hdeath⟩ := h
  have hne : i ≠ e := by
    rintro rfl
    exact hside hside'
  refine ⟨i, hi, ?_, ?_⟩
  · rw [World.entityAt_markDead]
    exact hside'
  · rw [World.entityAt_markDead]
    simp [hdeath, hne]

/-- What `die` leaves, in terms of the match. -/
theorem World.die_cases {w : World} {m : Match} (hm : w.sceneMatch = some m) (e : ℤ) :
    ((w.markDead e).winner m = none ∧ w.die e = w.markDead e) ∨
    ∃ side, (w.markDead e).winner m = some side ∧ w.die e = (w.markDead e).decided side := by
  have hm' : (w.markDead e).sceneMatch = some m := hm
  cases hwinner : (w.markDead e).winner m with
  | none => exact .inl ⟨rfl, by simp only [World.die, hm', hwinner]⟩
  | some side => exact .inr ⟨side, rfl, by simp only [World.die, hm', hwinner]⟩

theorem World.sceneMatch_decided {w : World} {m : Match} (hm : w.sceneMatch = some m) (side : Side) :
    (w.decided side).sceneMatch = some { m with isdone := true, sideVictory := some side } := by
  rw [World.decided, World.sceneMatch_mapMatch, hm]
  rfl

/-! ### The next turn -/

/-- The search for the next turn looks at the places after the iterator in a circle. -/
theorem Match.nextPlace_eq {m : Match} (hsize : m.roundListSize = some m.roundList.length)
    (hmem : ∀ e ∈ m.roundList, e ∈ m.entities) (dead : ℤ → Bool) {n i : ℕ}
    (hn : n ≤ m.roundList.length) (hi : i ≤ m.roundList.length) :
    (m.nextPlace dead n i).map Prod.snd = ((m.roundList.rotate i).take n).find? fun e => !dead e := by
  induction n generalizing i with
  | zero => simp [Match.nextPlace]
  | succ n ih =>
    -- The place after `i` is that of index `i` in the circle.
    have hplace : m.successor i - 1 = i % m.roundList.length := by
      rw [Match.successor, hsize, Option.getD_some]
      rcases Nat.lt_or_eq_of_le hi with hlt | rfl
      · rw [if_neg (by omega), Nat.mod_eq_of_lt hlt, Nat.add_sub_cancel]
      · rw [if_pos (by omega), Nat.mod_self]
    have hsucc : m.roundList.rotate (m.successor i) = m.roundList.rotate (i + 1) := by
      rw [Match.successor, hsize, Option.getD_some]
      rcases Nat.lt_or_eq_of_le hi with hlt | rfl
      · rw [if_neg (by omega)]
      · rw [if_pos (by omega), ← List.rotate_rotate, List.rotate_length]
    have hle : m.successor i ≤ m.roundList.length := by
      rw [Match.successor, hsize, Option.getD_some]
      split_ifs <;> omega
    have hlt : i % m.roundList.length < m.roundList.length := Nat.mod_lt i (by omega)
    have hget := List.getElem?_eq_getElem hlt
    rw [Match.nextPlace, hplace, Rotation.take_rotate_succ hget (by omega), hget]
    simp only [List.find?_cons]
    rw [if_neg (not_not.2 (hmem _ (List.getElem_mem hlt)))]
    cases hdead : dead m.roundList[i % m.roundList.length] with
    | false => simp
    | true => simpa [hsucc] using ih (by omega) hle

/-- The turn goes to the next living entity of the round list, in a circle. -/
theorem World.nextTurn_eq {w : World} {m : Match} {i : ℕ} (hi : m.roundIterator = some i)
    (hle : i ≤ m.roundList.length) (hsize : m.roundListSize = some m.roundList.length)
    (hmem : ∀ e ∈ m.roundList, e ∈ m.entities) :
    (w.nextTurn m).map Prod.snd = Rotation.nextFrom (fun e => !(w.entityAt e).death) m.roundList i := by
  rw [World.nextTurn, if_neg (by simp [hsize]), hi, Option.bind_some,
    Match.nextPlace_eq hsize hmem _ (le_refl _) hle, Rotation.nextFrom,
    List.take_of_length_le (le_of_eq (List.length_rotate ..))]

/-! ### The invariant -/

/-- What `Match:new`, `add_member`, `add_monster` and `prepare` leave. -/
structure Match.Prepared (m : Match) : Prop where
  isdone : m.isdone = false
  sideVictory : m.sideVictory = none
  roundEntityid : m.roundEntityid = none
  roundIterator : m.roundIterator = some 0
  roundListSize : m.roundListSize = some m.roundList.length
  mem_roundList : ∀ e, e ∈ m.roundList ↔ e ∈ m.entities
  nodup : m.roundList.Nodup

/-- The round list is that of the entities, both sides are living unless the match is done, and a side
has won exactly if it is done. -/
structure World.Fighting (w : World) (m : Match) : Prop where
  roundListSize : m.roundListSize = some m.roundList.length
  mem_roundList : ∀ e, e ∈ m.roundList ↔ e ∈ m.entities
  roundIterator : m.isdone = false → ∃ i ≤ m.roundList.length, m.roundIterator = some i
  living : m.isdone = false → ∀ side, w.Living m side
  sideVictory : m.sideVictory = none ↔ m.isdone = false

/-- The side that has won is living and the other one is not. -/
def World.Won (w : World) (m : Match) : Prop :=
  ∀ side, m.sideVictory = some side → w.Living m side ∧ ¬ w.Living m side.other

/-- The same match, later: once decided it stays so. -/
structure Match.Later (m m' : Match) : Prop where
  entities : m'.entities = m.entities
  roundList : m'.roundList = m.roundList
  isstart : m'.isstart = m.isstart
  decided : m.isdone = true → m'.isdone = true ∧ m'.sideVictory = m.sideVictory

theorem Match.Later.refl (m : Match) : m.Later m := ⟨rfl, rfl, rfl, fun h => ⟨h, rfl⟩⟩

theorem Match.Later.trans {m m' m'' : Match} (h : m.Later m') (h' : m'.Later m'') : m.Later m'' where
  entities := h'.entities.trans h.entities
  roundList := h'.roundList.trans h.roundList
  isstart := h'.isstart.trans h.isstart
  decided hd := ⟨(h'.decided (h.decided hd).1).1,
    (h'.decided (h.decided hd).1).2.trans (h.decided hd).2⟩

namespace World.Fighting

variable {w w' : World} {m : Match}

/-- Nothing that happens to packs matters. -/
theorem congr (h : w.Fighting m) (hdeath : ∀ e, (w'.entityAt e).death = (w.entityAt e).death)
    (hside : ∀ e, (w'.entityAt e).side = (w.entityAt e).side) : w'.Fighting m := by
  refine ⟨h.roundListSize, h.mem_roundList, h.roundIterator, fun hdone side => ?_, h.sideVictory⟩
  obtain ⟨e, he, hs, hd⟩ := h.living hdone side
  exact ⟨e, he, (hside e).trans hs, (hdeath e).trans hd⟩

theorem Won.congr (h : w.Won m) (hdeath : ∀ e, (w'.entityAt e).death = (w.entityAt e).death)
    (hside : ∀ e, (w'.entityAt e).side = (w.entityAt e).side) : w'.Won m := by
  have hliving (side : Side) : w'.Living m side ↔ w.Living m side := by
    simp only [World.Living, hdeath, hside]
  intro side hvictory
  rw [hliving, hliving]
  exact h side hvictory

/-- The fields of the round may change as long as the iterator stays in the list. -/
theorem setRound (h : w.Fighting m) {total : ℤ} {i : Option ℕ} {e : Option ℤ}
    (hi : m.isdone = false → ∃ j ≤ m.roundList.length, i = some j) :
    w.Fighting { m with roundTotal := total, roundIterator := i, roundEntityid := e } :=
  ⟨h.roundListSize, h.mem_roundList, hi, h.living, h.sideVictory⟩

/-- A match that is decided need not go on. -/
theorem setDone (h : w.Fighting m) (w' : World) (side : Side) :
    w'.Fighting { m with isdone := true, sideVictory := some side } :=
  ⟨h.roundListSize, h.mem_roundList, by simp, by simp, by simp⟩

/-- **A death keeps the invariant**: the match is decided as soon as a side is not living any more, and
the other side is living then. -/
theorem die (h : w.Fighting m) (hm : w.sceneMatch = some m) {e : ℤ} (hlate : w.late e = false) :
    ∃ m', (w.die e).sceneMatch = some m' ∧ (w.die e).Fighting m' ∧ m.Later m' ∧ (w.die e).Won m' := by
  have hdone : m.isdone = false := by
    rw [World.late, hm] at hlate
    exact (Bool.or_eq_false_iff.1 hlate).1
  have hvictory := h.sideVictory.2 hdone
  obtain ⟨hwinner, hdie⟩ | ⟨side, hwinner, hdie⟩ := World.die_cases hm e
  · have hliving := World.winner_eq_none.1 hwinner
    rw [hdie]
    refine ⟨m, hm, ⟨h.roundListSize, h.mem_roundList, h.roundIterator, fun _ => hliving, h.sideVictory⟩,
      .refl m, fun side hside => ?_⟩
    rw [hvictory] at hside
    cases hside
  · -- Before the death both sides were living, so the side of the dead entity has lost.
    have hlost := World.not_living_of_winner hwinner
    have hside : (w.entityAt e).side = side.other := by
      by_contra hne
      exact hlost (World.living_markDead_of_side_ne (h.living hdone _) hne)
    have hwon : (w.markDead e).Living m side := by
      refine World.living_markDead_of_side_ne (h.living hdone _) ?_
      rw [hside]
      cases side <;> decide
    rw [hdie]
    refine ⟨_, World.sceneMatch_decided (w := w.markDead e) hm side, ?_, ?_, ?_⟩
    · exact h.setDone _ side
    · exact ⟨rfl, rfl, rfl, fun hd => by rw [hdone] at hd; cases hd⟩
    · rintro side' hside'
      cases hside'
      exact ⟨hwon, hlost⟩

/-- Handing over a turn keeps the invariant. -/
theorem pass (h : w.Fighting m) (hm : w.sceneMatch = some m) {i : ℕ} {e : ℤ}
    (hnext : w.nextTurn m = some (i, e)) (records : List Record) :
    ∃ m', ((w.turnTo i e).note records).sceneMatch = some m' ∧
      ((w.turnTo i e).note records).Fighting m' ∧ m.Later m' ∧ m'.sideVictory = m.sideVictory := by
  refine ⟨_, World.sceneMatch_turnTo hm i e, ?_, ⟨rfl, rfl, rfl, fun hd => ⟨hd, rfl⟩⟩, rfl⟩
  refine (h.setRound fun _ => ⟨i, ?_, rfl⟩).congr (fun _ => rfl) fun _ => rfl
  have hplace := (World.nextTurn_some hnext).2.2
  have := (List.getElem?_eq_some_iff.1 hplace).1
  omega

/-- **Every step keeps the invariant.** -/
theorem step (h : w.Fighting m) (hm : w.sceneMatch = some m) (hstep : Step adding w w') :
    ∃ m', w'.sceneMatch = some m' ∧ w'.Fighting m' ∧ m.Later m' ∧ (w.Won m → w'.Won m') := by
  obtain hcalm | ⟨e, -, hlate, rfl⟩ | ⟨m', i, e, e', hm', hnext, rfl⟩ := hstep.calm_or
  · refine ⟨m, hcalm.sceneMatch.trans hm, h.congr hcalm.death hcalm.side, .refl m, fun hwon => ?_⟩
    exact Won.congr hwon hcalm.death hcalm.side
  · obtain ⟨m', hm', hfighting, hlater, hwon⟩ := h.die hm hlate
    exact ⟨m', hm', hfighting, hlater, fun _ => hwon⟩
  · obtain rfl : m = m' := by rw [hm] at hm'; cases hm'; rfl
    obtain ⟨m', hm', hfighting, hlater, hvictory⟩ := h.pass hm hnext _
    refine ⟨m', hm', hfighting, hlater, fun hwon side hside => ?_⟩
    rw [World.Living, World.Living, hlater.entities]
    exact hwon side (hvictory ▸ hside)

theorem moves (h : w.Fighting m) (hm : w.sceneMatch = some m) (hmoves : Moves adding w w') :
    ∃ m', w'.sceneMatch = some m' ∧ w'.Fighting m' ∧ m.Later m' ∧ (w.Won m → w'.Won m') := by
  induction hmoves with
  | refl => exact ⟨m, hm, h, .refl m, id⟩
  | tail _ hstep ih =>
    obtain ⟨m₁, hm₁, h₁, hlater₁, hwon₁⟩ := ih
    obtain ⟨m₂, hm₂, h₂, hlater₂, hwon₂⟩ := h₁.step hm₁ hstep
    exact ⟨m₂, hm₂, h₂, hlater₁.trans hlater₂, fun hwon => hwon₂ (hwon₁ hwon)⟩

/-- As long as the match is not done there is a next turn. -/
theorem nextTurn (h : w.Fighting m) (hdone : m.isdone = false) : w.nextTurn m ≠ none := by
  obtain ⟨i, hle, hi⟩ := h.roundIterator hdone
  obtain ⟨e, he, -, hdeath⟩ := h.living hdone .allies
  have hsome : (Rotation.nextFrom (fun e => !(w.entityAt e).death) m.roundList i).isSome :=
    Rotation.nextFrom_isSome.2 ⟨e, (h.mem_roundList e).2 he, by simp [hdeath]⟩
  rw [← World.nextTurn_eq hi hle h.roundListSize fun e he => (h.mem_roundList e).1 he, Option.isSome_map] at hsome
  intro hnone
  rw [hnone] at hsome
  cases hsome

/-- **Every error keeps the invariant.** -/
theorem fail (h : w.Fighting m) (hm : w.sceneMatch = some m) {f : Fault} (hfail : Fail f w w') :
    ∃ m', w'.sceneMatch = some m' ∧ w'.Fighting m' ∧ m.Later m' := by
  cases hfail with
  | plain => exact ⟨m, hm, h, .refl m⟩
  | stack _ _ hq => exact ⟨m, hq.sceneMatch.trans hm, h.congr hq.death hq.side, .refl m⟩
  | @late _ e _ hlate =>
    refine ⟨m, hm, ⟨h.roundListSize, h.mem_roundList, h.roundIterator, fun hdone side => ?_, h.sideVictory⟩, .refl m⟩
    -- The match is not done, so the late death is that of an entity outside of it.
    rw [World.late, hm] at hlate
    have hmem : e ∉ m.entities := by simpa [hdone] using hlate
    obtain ⟨i, hi, hside, hdeath⟩ := h.living hdone side
    have hne : i ≠ e := by
      rintro rfl
      exact hmem hi
    refine ⟨i, hi, ?_, ?_⟩
    · rw [World.entityAt_markDead]
      exact hside
    · rw [World.entityAt_markDead]
      simp [hdeath, hne]
  | undone _ hm' hdone hvictory =>
    rw [hm] at hm'
    cases hm'
    exact absurd (h.sideVictory.2 hdone) hvictory
  | noScene _ hscene =>
    rw [World.sceneMatch, hscene] at hm
    cases hm
  | noTurn hm' hnext _ hw =>
    rw [hm] at hm'
    cases hm'
    obtain ⟨total, i, e, rfl⟩ := hw
    refine ⟨_, (World.sceneMatch_mapMatch ..).trans (congrArg _ hm), ?_, ⟨rfl, rfl, rfl, fun hd => ⟨hd, rfl⟩⟩⟩
    refine World.Fighting.congr (h.setRound fun hdone => ?_) (fun _ => rfl) fun _ => rfl
    exact absurd hnext (h.nextTurn hdone)

/-- What a program that follows the track does to the match. -/
theorem wp_of_follows {α : Type} {x : Run α} (hx : (logicTrack adding).Follows x) (h : w.Fighting m)
    (hm : w.sceneMatch = some m) :
    wp x (fun _ w' => ∃ m', w'.sceneMatch = some m' ∧ w'.Fighting m' ∧ m.Later m' ∧ (w.Won m → w'.Won m'))
      (fun _ w' => ∃ m', w'.sceneMatch = some m' ∧ w'.Fighting m' ∧ m.Later m') w := by
  refine wp_mono (hx w) ?_ ?_
  · rintro _ w' ⟨hmoves, -⟩
    exact h.moves hm hmoves
  · rintro f w' ⟨u, hmoves, -, hfail⟩
    obtain ⟨m₁, hm₁, h₁, hlater₁, -⟩ := h.moves hm hmoves
    obtain ⟨m₂, hm₂, h₂, hlater₂⟩ := h₁.fail hm₁ hfail
    exact ⟨m₂, hm₂, h₂, hlater₁.trans hlater₂⟩

end World.Fighting

/-! ### Entering a match -/

/-- A change of packs and of nothing else that matters to a match. -/
structure Outside (w w' : World) : Prop where
  death : ∀ e, (w'.entityAt e).death = (w.entityAt e).death
  side : ∀ e, (w'.entityAt e).side = (w.entityAt e).side
  scene : w'.scene = w.scene
  trace : w'.trace = w.trace

/-- A step while the entities enter a match. -/
inductive EnterStep : World → World → Prop
  | logic {w w'} (h : Step true w w') : EnterStep w w'
  | outside {w w'} (h : Outside w w') : EnterStep w w'

/-- The track of `Match.start` until the first turn. -/
def enterTrack : Track Fault World where
  ok := Relation.ReflTransGen EnterStep
  error f w w' := ∃ u, Relation.ReflTransGen EnterStep w u ∧ (w' = u ∨ Fail f u w')
  refl _ := .refl
  trans h h' := h.trans h'
  trans_error := by
    rintro f s t u h ⟨v, hv, hfail⟩
    exact ⟨v, h.trans hv, hfail⟩

theorem enter_of_logic {α : Type} {x : Run α} (h : (logicTrack true).Follows x) : enterTrack.Follows x := by
  have hmoves {w w' : World} (h : Moves true w w') : Relation.ReflTransGen EnterStep w w' :=
    Relation.ReflTransGen.mono (fun _ _ hstep => .logic hstep) _ _ h
  apply h.mono
  · intro w w' hok
    exact hmoves hok.1
  · rintro f w w' ⟨u, hu, -, hfail⟩
    exact ⟨u, hmoves hu, .inr hfail⟩

theorem enter_of_quiet {α : Type} {x : Run α} (h : quietTrack.Follows x) : enterTrack.Follows x :=
  enter_of_logic (follows_of_quiet h)

theorem enter_modifyPack (e : ℤ) (f : Pack → Pack) : enterTrack.Follows (modifyPack e f) :=
  follows_modify fun w =>
    .single (.outside ⟨fun i => w.death_setPack e i _, fun i => w.side_setPack e i _, rfl, rfl⟩)

theorem enter_cardNew (baseid : ℤ) : enterTrack.Follows (cardNew env baseid) :=
  enter_of_quiet fun w => wp_mono (wp_cardNew baseid w) (fun _ _ h => h.1) fun _ _ h => h

/-- The delivery of a pack to an entity. -/
theorem enter_delivery (src : Pack) (span : Span) (e : ℤ) :
    enterTrack.Follows (delivery env src span (modifyPack e)) := by
  refine (enter_of_quiet (quiet_assertion _ rfl)).bind fun _ => ?_
  refine Follows.ite (fun _ => ?_) fun _ => enter_modifyPack e _
  refine (enter_modifyPack e _).bind fun _ => ?_
  refine (Follows.forM fun c _ => ?_).bind fun _ => ?_
  · refine follows_get.bind fun w => (enter_cardNew _).bind fun new => ?_
    exact enter_modifyPack e _
  refine (Follows.forM fun i _ => ?_).bind fun _ => ?_
  · refine follows_get.bind fun w => (enter_of_quiet (quiet_itemNew _ _)).bind fun new => ?_
    exact enter_modifyPack e _
  refine (Follows.forM fun x _ => ?_).bind fun _ => enter_modifyPack e _
  refine follows_get.bind fun w => (enter_of_quiet (quiet_itemNew _ _)).bind fun new => ?_
  exact enter_modifyPack e _

theorem quiet_notifyClient (e : ℤ) : quietTrack.Follows (notifyClient env e) := by
  refine (quiet_getPack e).bind fun p => ?_
  refine (quiet_notify _).bind fun _ => (quiet_notify _).bind fun _ => ?_
  refine (quiet_notify _).bind fun _ => (quiet_notify _).bind fun _ => (quiet_notify _).bind fun _ => ?_
  refine (Follows.forM fun _ _ => quiet_notify _).bind fun _ => ?_
  refine (Follows.forM fun _ _ => quiet_notify _).bind fun _ => ?_
  refine (Follows.forM fun _ _ => quiet_notify _).bind fun _ => ?_
  refine (Follows.forM fun _ _ => quiet_notify _).bind fun _ => ?_
  exact Follows.forM fun _ _ => quiet_notify _

theorem enter_enterMatch (env : Env) (fuel : ℕ) (e : ℤ) :
    enterTrack.Follows (enterMatch env (perform env fuel) fuel e) := by
  have hscript := script_follows_true env fuel
  refine follows_get.bind fun w => (enter_of_quiet (quiet_assertion _ rfl)).bind fun _ => ?_
  refine (follows_modify fun w => ?_).bind fun _ => (enter_delivery _ _ e).bind fun _ => ?_
  · refine .single (.outside ⟨fun i => ?_, fun i => ?_, rfl, rfl⟩)
    · by_cases hi : i = e
      · subst hi
        simp
      · rw [World.entityAt_setEntity_of_ne _ hi]
    · by_cases hi : i = e
      · subst hi
        simp
      · rw [World.entityAt_setEntity_of_ne _ hi]
  refine (enter_of_quiet (quiet_getPack e)).bind fun p => ?_
  refine Follows.ite (fun _ => enter_of_logic (follows_toDie hscript e)) fun _ => ?_
  refine (enter_of_quiet (quiet_notifyClient e)).bind fun _ => ?_
  refine (enter_of_quiet (quiet_getPack e)).bind fun p => Follows.forM fun c _ => ?_
  refine Follows.bind ?_ fun _ => enter_modifyPack e _
  refine (enter_of_quiet (quiet_getPack e)).bind fun p => ?_
  refine Follows.bind ?_ fun _ => (follows_modify fun w => ?_).bind fun _ => enter_modifyPack e _
  · exact Follows.ite (fun _ => follows_pure _) fun _ => follows_throw fun w => ⟨w, .refl, .inl rfl⟩
  · exact .single (.outside ⟨fun _ => rfl, fun _ => rfl, rfl, rfl⟩)

namespace World.Fighting

variable {w w' : World} {m : Match}

/-- The invariant holds while the entities enter. -/
theorem enter (h : w.Fighting m) (hm : w.sceneMatch = some m)
    (hmoves : Relation.ReflTransGen EnterStep w w') :
    ∃ m', w'.sceneMatch = some m' ∧ w'.Fighting m' ∧ m.Later m' ∧ (w.Won m → w'.Won m') := by
  induction hmoves with
  | refl => exact ⟨m, hm, h, .refl m, id⟩
  | @tail u v _ hstep ih =>
    obtain ⟨m₁, hm₁, h₁, hlater₁, hwon₁⟩ := ih
    cases hstep with
    | logic hlogic =>
      obtain ⟨m₂, hm₂, h₂, hlater₂, hwon₂⟩ := h₁.step hm₁ hlogic
      exact ⟨m₂, hm₂, h₂, hlater₁.trans hlater₂, fun hwon => hwon₂ (hwon₁ hwon)⟩
    | outside hout =>
      have hm₂ : v.sceneMatch = some m₁ := by rw [World.sceneMatch, hout.scene]; exact hm₁
      refine ⟨m₁, hm₂, h₁.congr hout.death hout.side, hlater₁, fun hwon => ?_⟩
      exact Won.congr (hwon₁ hwon) hout.death hout.side

end World.Fighting

/-! ### Starting a match -/

theorem World.livingEntitySize_pos {w : World} {m : Match} {side : Side} :
    0 < w.livingEntitySize m side ↔ w.Living m side := by
  rw [Nat.pos_iff_ne_zero, ne_eq, World.livingEntitySize_eq_zero, not_not]

/-- A match that is prepared and has living entities on both sides. -/
theorem Match.Prepared.fighting {w : World} {m : Match} (h : m.Prepared) (hliving : ∀ side, w.Living m side) :
    w.Fighting m where
  roundListSize := h.roundListSize
  mem_roundList := h.mem_roundList
  roundIterator _ := ⟨0, Nat.zero_le _, h.roundIterator⟩
  living _ := hliving
  sideVictory := ⟨fun _ => h.isdone, fun _ => h.sideVictory⟩

/-- The match counts as started. -/
def World.begun (w : World) : World := w.mapMatch fun m => { m with isstart := true }

theorem World.sceneMatch_begun {w : World} {m : Match} (hm : w.sceneMatch = some m) :
    w.begun.sceneMatch = some { m with isstart := true } := by
  rw [World.begun, World.sceneMatch_mapMatch, hm]
  rfl

/-- A match that `start` does not refuse is fighting when its entities enter. -/
theorem World.fighting_begun {w : World} {m : Match} (hprepared : m.Prepared) (hliving : ∀ side, w.Living m side) :
    w.begun.Fighting { m with isstart := true } :=
  Match.Prepared.fighting ⟨hprepared.isdone, hprepared.sideVictory, hprepared.roundEntityid,
    hprepared.roundIterator, hprepared.roundListSize, hprepared.mem_roundList, hprepared.nodup⟩ hliving

/-- The worlds through which `start` goes: the entities enter, some of them may die of it, and then the
first turn begins. -/
inductive Starting (w : World) : World → Prop
  | entering {u} (h : Relation.ReflTransGen EnterStep w u) : Starting w u
  | turning {u v} {m : Match} {i : ℕ} {e : ℤ} (h : Relation.ReflTransGen EnterStep w u)
      (hm : u.sceneMatch = some m) (hnext : u.nextTurn m = some (i, e))
      (hmoves : Moves true ((u.turnTo i e).note [u.beginRecord m e]) v) : Starting w v

/-- What `start` does: it refuses at once, or it goes on until it returns or fails. -/
theorem wp_starting {fuel : ℕ} {w : World} {m : Match} (hm : w.sceneMatch = some m)
    {Q : Unit → World → Prop} {E : Fault → World → Prop} (hrefuse : ∀ f, E f w)
    (hok : (∀ side, w.Living m side) → ∀ w', Starting w.begun w' → Q () w')
    (herror : (∀ side, w.Living m side) → ∀ f u w', Starting w.begun u → w' = u ∨ Fail f u w' → E f w') :
    wp (start env (perform env fuel) fuel) Q E w := by
  rw [start, wp_bind, wp_get, wp_bind, wp_getMatch]
  refine ⟨fun m' hm' => ?_, fun _ => hrefuse _⟩
  obtain rfl : m = m' := Option.some.inj (hm.symm.trans hm')
  rw [wp_bind, wp_assertion]
  refine ⟨fun _ => ?_, fun _ => hrefuse _⟩
  rw [wp_bind, wp_assertion]
  refine ⟨fun _ => ?_, fun _ => hrefuse _⟩
  rw [wp_bind, wp_assertion]
  refine ⟨fun hsizes => ?_, fun _ => hrefuse _⟩
  have hliving : ∀ side, w.Living m side := by
    intro side
    cases side with
    | allies => exact World.livingEntitySize_pos.1 hsizes.1
    | enemy => exact World.livingEntitySize_pos.1 hsizes.2
  rw [wp_bind, wp_modifyMatch, wp_bind]
  have hloop : enterTrack.Follows ((env.pairs m.entities).forM fun e => enterMatch env (perform env fuel) fuel e) :=
    Follows.forM fun e _ => enter_enterMatch env fuel e
  refine wp_mono (hloop w.begun) ?_ ?_
  · intro _ u henter
    rw [wp_bind]
    cases hmatch : u.sceneMatch with
    | none =>
      rw [nextRoundEntity, wp_bind, wp_getMatch]
      exact ⟨fun m' hm' => (by rw [hmatch] at hm'; cases hm'), fun _ => herror hliving _ u u (.entering henter) (.inl rfl)⟩
    | some m₂ =>
      refine wp_mono (wp_nextRoundEntity hmatch) ?_ ?_
      · rintro _ v ⟨i, e, hnext, rfl⟩
        refine wp_beginRound (World.sceneMatch_turnTo hmatch i e) rfl (World.nextTurn_some hnext).1 ?_
        refine wp_mono (follows_roundBegin (script_follows_true env fuel) e _) ?_ ?_
        · rintro _ w' ⟨hmoves, -⟩
          exact hok hliving w' (.turning henter hmatch hnext hmoves)
        · rintro f w' ⟨u', hmoves, -, hfail⟩
          exact herror hliving f u' w' (.turning henter hmatch hnext hmoves) (.inr hfail)
      · rintro f w' ⟨-, hfail⟩
        exact herror hliving f u w' (.entering henter) (.inr hfail)
  · rintro f w' ⟨u, henter, hu⟩
    exact herror hliving f u w' (.entering henter) hu

/-- The invariant holds while `start` goes on. -/
theorem World.Fighting.starting {w w' : World} {m : Match} (h : w.Fighting m) (hm : w.sceneMatch = some m)
    (hstarting : Starting w w') :
    ∃ m', w'.sceneMatch = some m' ∧ w'.Fighting m' ∧ m.Later m' ∧ (w.Won m → w'.Won m') := by
  cases hstarting with
  | entering henter => exact h.enter hm henter
  | @turning u _ m₂ i e henter hm₂' hnext hmoves =>
    obtain ⟨m₁, hm₁, h₁, hlater₁, hwon₁⟩ := h.enter hm henter
    obtain rfl : m₁ = m₂ := Option.some.inj (hm₁.symm.trans hm₂')
    obtain ⟨m₃, hm₃, h₃, hlater₃, hvictory₃⟩ := h₁.pass hm₁ hnext [u.beginRecord m₁ e]
    obtain ⟨m₄, hm₄, h₄, hlater₄, hwon₄⟩ := h₃.moves hm₃ hmoves
    refine ⟨m₄, hm₄, h₄, (hlater₁.trans hlater₃).trans hlater₄, fun hwon => hwon₄ fun side hside => ?_⟩
    rw [World.Living, World.Living, hlater₃.entities]
    exact hwon₁ hwon side (hvictory₃ ▸ hside)

/-- What `start` leaves: unless it refuses at once, a match that is started and fighting, also if it
raises later. -/
theorem wp_start {fuel : ℕ} {w : World} {m : Match} (hm : w.sceneMatch = some m) (hprepared : m.Prepared) :
    wp (start env (perform env fuel) fuel)
      (fun _ w' => ∃ m', w'.sceneMatch = some m' ∧ w'.Fighting m' ∧
        ({ m with isstart := true } : Match).Later m' ∧ w'.Won m')
      (fun _ w' => w' = w ∨ ∃ m', w'.sceneMatch = some m' ∧ w'.Fighting m' ∧
        ({ m with isstart := true } : Match).Later m') w := by
  have hm₁ := World.sceneMatch_begun hm
  have hwon : w.begun.Won { m with isstart := true } := by
    intro side hside
    rw [show ({ m with isstart := true } : Match).sideVictory = m.sideVictory from rfl,
      hprepared.sideVictory] at hside
    cases hside
  refine wp_starting hm (fun _ => .inl rfl) ?_ ?_
  · intro hliving w' hstarting
    obtain ⟨m', hm', h', hlater, hwon'⟩ := (World.fighting_begun hprepared hliving).starting hm₁ hstarting
    exact ⟨m', hm', h', hlater, hwon' hwon⟩
  · intro hliving f u w' hstarting hw'
    obtain ⟨m', hm', h', hlater, -⟩ := (World.fighting_begun hprepared hliving).starting hm₁ hstarting
    rcases hw' with rfl | hfail
    · exact .inr ⟨m', hm', h', hlater⟩
    · obtain ⟨m₂, hm₂, h₂, hlater₂⟩ := h'.fail hm' hfail
      exact .inr ⟨m₂, hm₂, h₂, hlater.trans hlater₂⟩

/-! ### Requests -/

/-- A request to a match that has started. -/
inductive MatchCall
  | cardPlay (e c : ℤ) (pick : Option ℤ)
  | cardDiscard (e c : ℤ)
  | roundEnd (e : ℤ)
  | abort (e : ℤ)
  | hpAdd (e value : ℤ)
  | update (ready : ℤ → Bool)

/-- What a request does; its scripts may call each other to the depth of the fuel. -/
def MatchCall.run (env : Env) (fuel : ℕ) : MatchCall → Run Unit
  | cardPlay e c pick => discard <| matchCardPlay env (perform env fuel) e c pick
  | cardDiscard e c => matchCardDiscard env (perform env fuel) e c
  | roundEnd e => matchRoundEnd env (perform env fuel) fuel e
  | abort e => Game.abort e
  | hpAdd e value => Game.hpAdd env (perform env fuel) fuel e value
  | update ready => matchUpdate env (perform env fuel) fuel ready

/-- Requests that return, one after the other. -/
def matchMachine (env : Env) : Machine World (ℕ × MatchCall) where
  step w event :=
    match event.2.run env event.1 w with
    | .ok _ w' => some w'
    | .error _ _ => none

theorem wp_of_step {w w' : World} {event : ℕ × MatchCall} (h : (matchMachine env).step w event = some w')
    {Q : Unit → World → Prop} {E : Fault → World → Prop} (hwp : wp (event.2.run env event.1) Q E w) : Q () w' := by
  simp only [matchMachine] at h
  split at h
  · rename_i hrun
    cases h
    exact (wp_ok hrun).1 hwp
  · cases h

theorem follows_matchCardPlay {act : Act → Run Unit}
    (hact : ∀ f call w, ∀ a ∈ env.script f call w, (logicTrack adding).Follows (act a)) (e c : ℤ)
    (pick : Option ℤ) : (logicTrack adding).Follows (matchCardPlay env act e c pick) := by
  refine (follows_of_quiet quiet_getMatch).bind fun m => ?_
  refine (follows_of_quiet (quiet_assertion _ rfl)).bind fun _ => ?_
  refine (follows_of_quiet (quiet_assertion _ rfl)).bind fun _ => ?_
  exact Follows.ite (fun _ => follows_of_quiet (quiet_throw trivial)) fun _ => follows_cardPlay hact e c pick

theorem follows_matchCardDiscard {act : Act → Run Unit}
    (hact : ∀ f call w, ∀ a ∈ env.script f call w, (logicTrack adding).Follows (act a)) (e c : ℤ) :
    (logicTrack adding).Follows (matchCardDiscard env act e c) := by
  refine (follows_of_quiet quiet_getMatch).bind fun m => ?_
  refine (follows_of_quiet (quiet_assertion _ rfl)).bind fun _ => ?_
  refine (follows_of_quiet (quiet_assertion _ rfl)).bind fun _ => ?_
  exact Follows.ite (fun _ => follows_of_quiet (quiet_throw trivial)) fun _ => follows_cardDiscard hact e c false

theorem follows_monsterUpdate {act : Act → Run Unit} {fuel : ℕ}
    (hact : ∀ f call w, ∀ a ∈ env.script f call w, (logicTrack adding).Follows (act a))
    (ready : ℤ → Bool) (e : ℤ) : (logicTrack adding).Follows (monsterUpdate env act fuel ready e) := by
  intro w
  rw [monsterUpdate, wp_bind, wp_get]
  split
  · exact (logicTrack adding).refl w
  · rename_i m hm
    rw [wp_ite]
    refine ⟨fun _ => (logicTrack adding).refl w, fun hdone => ?_⟩
    have hend : wp (matchRoundEnd env act fuel e) (fun _ w' => (logicTrack adding).ok w w')
        (fun f w' => (logicTrack adding).error f w w') w :=
      wp_matchRoundEnd hact hm (Bool.eq_false_of_not_eq_true hdone) e
    rw [wp_ite]
    refine ⟨fun _ => (logicTrack adding).refl w, fun _ => ?_⟩
    rw [wp_ite]
    refine ⟨fun _ => hend, fun _ => ?_⟩
    rw [wp_ite]
    refine ⟨fun _ => (logicTrack adding).refl w, fun _ => ?_⟩
    rw [wp_ite]
    refine ⟨fun _ => hend, fun _ => ?_⟩
    refine (follows_of_quiet (quiet_tableRandom e _)).bind (fun c => ?_) w
    cases c with
    | none => exact follows_of_quiet (quiet_throw rfl)
    | some c =>
      refine (follows_of_quiet (quiet_getPack e)).bind fun p => ?_
      refine (follows_of_quiet (quiet_assertion _ rfl)).bind fun _ => ?_
      refine ((follows_matchCardPlay hact e c none).map _).bind fun _ => ?_
      refine (follows_of_quiet (quiet_getPack e)).bind fun p => ?_
      exact Follows.ite (fun _ => follows_matchCardDiscard hact e c) fun _ => follows_pure _

theorem follows_matchUpdate {act : Act → Run Unit} {fuel : ℕ}
    (hact : ∀ f call w, ∀ a ∈ env.script f call w, (logicTrack adding).Follows (act a))
    (ready : ℤ → Bool) : (logicTrack adding).Follows (matchUpdate env act fuel ready) := by
  refine (follows_of_quiet quiet_getMatch).bind fun m => ?_
  refine (follows_of_quiet (quiet_assertion _ rfl)).bind fun _ => Follows.forM fun e _ => ?_
  refine follows_get.bind fun w => ?_
  exact Follows.ite (fun _ => follows_monsterUpdate hact ready e) fun _ => follows_pure _

/-- A match that is not done is decided by `abort`. -/
theorem wp_abort (e : ℤ) (w : World) :
    wp (abort e) (fun _ w' => ∃ m, w.sceneMatch = some m ∧ m.isdone = false ∧
        w' = w.decided (w.entityAt e).side.other)
      (fun f w' => w' = w ∧ f.stackFunc = false) w := by
  rw [abort, wp_bind, wp_get, wp_bind, wp_getMatch]
  refine ⟨fun m hm => ?_, fun _ => ⟨rfl, rfl⟩⟩
  rw [wp_bind, wp_assertion]
  refine ⟨fun hdone => ?_, fun _ => ⟨rfl, rfl⟩⟩
  rw [wp_bind, wp_assertion]
  refine ⟨fun _ => ?_, fun _ => ⟨rfl, rfl⟩⟩
  exact wp_done hm hdone (fun _ => ⟨m, hm, hdone, rfl⟩) fun _ => ⟨rfl, rfl⟩

/-- What a request does to the world: steps of the logic, or `abort` decides the match. A request that
raises has done steps, or nothing at all. -/
theorem MatchCall.wp_moves (henv : adding = true ∨ env.AddsNoCard) (fuel : ℕ) (call : MatchCall) (w : World) :
    wp (call.run env fuel)
      (fun _ w' => (logicTrack adding).ok w w' ∨ ∃ e m side, call = .abort e ∧ w.sceneMatch = some m ∧
        m.isdone = false ∧ w' = w.decided side)
      (fun f w' => (logicTrack adding).error f w w' ∨ w' = w ∧ f.stackFunc = false) w := by
  have hscript := script_follows henv fuel
  have hlogic {x : Run Unit} (hx : (logicTrack adding).Follows x) : wp x
      (fun _ w' => (logicTrack adding).ok w w' ∨ ∃ e m side, call = .abort e ∧ w.sceneMatch = some m ∧
        m.isdone = false ∧ w' = w.decided side)
      (fun f w' => (logicTrack adding).error f w w' ∨ w' = w ∧ f.stackFunc = false) w :=
    wp_mono (hx w) (fun _ _ h => .inl h) fun _ _ h => .inl h
  cases call with
  | cardPlay e c pick => exact hlogic ((follows_matchCardPlay hscript e c pick).map _)
  | cardDiscard e c => exact hlogic (follows_matchCardDiscard hscript e c)
  | hpAdd e value => exact hlogic (follows_hpAdd hscript e value)
  | update ready => exact hlogic (follows_matchUpdate hscript ready)
  | roundEnd e =>
    -- `round_end` of a match that is done fails its first assertion.
    by_cases hopen : ∃ m, w.sceneMatch = some m ∧ m.isdone = false
    · obtain ⟨m, hm, hdone⟩ := hopen
      exact wp_mono (wp_matchRoundEnd hscript hm hdone e) (fun _ _ h => .inl h) fun _ _ h => .inl h
    · show wp (matchRoundEnd env (perform env fuel) fuel e) _ _ w
      rw [matchRoundEnd, wp_bind, wp_getMatch]
      refine ⟨fun m hm => ?_, fun _ => .inr ⟨rfl, rfl⟩⟩
      rw [wp_bind, wp_assertion]
      refine ⟨fun hdone => absurd ⟨m, hm, hdone⟩ hopen, fun _ => .inr ⟨rfl, rfl⟩⟩
  | abort e =>
    refine wp_mono (wp_abort e w) ?_ ?_
    · rintro _ w' ⟨m, hm, hdone, rfl⟩
      exact .inr ⟨e, m, _, rfl, hm, hdone, rfl⟩
    · rintro f w' ⟨rfl, hf⟩
      exact .inr ⟨rfl, hf⟩

theorem MatchCall.wp_moves_true (env : Env) (fuel : ℕ) (call : MatchCall) (w : World) :
    wp (call.run env fuel)
      (fun _ w' => (logicTrack true).ok w w' ∨ ∃ e m side, call = .abort e ∧ w.sceneMatch = some m ∧
        m.isdone = false ∧ w' = w.decided side)
      (fun f w' => (logicTrack true).error f w w' ∨ w' = w ∧ f.stackFunc = false) w :=
  call.wp_moves (.inl rfl) fuel w

/-- What a request does to a match that is fighting. -/
theorem MatchCall.wp_run {fuel : ℕ} {w : World} {m : Match} (h : w.Fighting m) (hm : w.sceneMatch = some m)
    (call : MatchCall) : wp (call.run env fuel)
      (fun _ w' => ∃ m', w'.sceneMatch = some m' ∧ w'.Fighting m' ∧ m.Later m' ∧
        ((∀ e, call ≠ .abort e) → w.Won m → w'.Won m'))
      (fun _ w' => ∃ m', w'.sceneMatch = some m' ∧ w'.Fighting m' ∧ m.Later m') w := by
  refine wp_mono (call.wp_moves_true env fuel w) ?_ ?_
  · rintro _ w' (⟨hmoves, -⟩ | ⟨e, m₁, side, rfl, hm₁, hdone, rfl⟩)
    · obtain ⟨m', hm', h', hlater, hwon⟩ := h.moves hm hmoves
      exact ⟨m', hm', h', hlater, fun _ => hwon⟩
    · rw [hm] at hm₁
      cases hm₁
      refine ⟨_, World.sceneMatch_decided hm _, ?_, ?_, fun hne => absurd rfl (hne e)⟩
      · exact h.setDone _ _
      · exact ⟨rfl, rfl, rfl, fun hd => by rw [hdone] at hd; cases hd⟩
  · rintro f w' (⟨u, hmoves, -, hfail⟩ | ⟨rfl, -⟩)
    · obtain ⟨m₁, hm₁, h₁, hlater₁, -⟩ := h.moves hm hmoves
      obtain ⟨m₂, hm₂, h₂, hlater₂⟩ := h₁.fail hm₁ hfail
      exact ⟨m₂, hm₂, h₂, hlater₁.trans hlater₂⟩
    · exact ⟨m, hm, h, .refl m⟩

/-- In every run of requests the match is fighting. -/
theorem fighting_of_run {fuel : ℕ} {w₀ w₁ u : World} {m₀ : Match} {es : List (ℕ × MatchCall)}
    (hm₀ : w₀.sceneMatch = some m₀) (hprepared : m₀.Prepared)
    (hstart : start env (perform env fuel) fuel w₀ = .ok () w₁)
    (hrun : (matchMachine env).run w₁ es = some u) : ∃ m, u.sceneMatch = some m ∧ u.Fighting m := by
  have hfirst : ∃ m, w₁.sceneMatch = some m ∧ w₁.Fighting m := by
    obtain ⟨m, hm, h, -⟩ := (wp_ok hstart).1 (wp_start hm₀ hprepared)
    exact ⟨m, hm, h⟩
  refine Machine.invariant (I := fun w => ∃ m, w.sceneMatch = some m ∧ w.Fighting m) ?_ hfirst hrun
  rintro w event w' ⟨m, hm, h⟩ hstep
  obtain ⟨m', hm', h', -⟩ := wp_of_step hstep (event.2.wp_run h hm)
  exact ⟨m', hm', h'⟩

/-- **Both sides are living until the match is done.** In every state that a match reaches from `start`
by requests that return: if it is not done then both sides have a living entity and
`next_round_entity` returns, a side has won exactly if it is done, a request that finds it done leaves
the winner, and a request other than `abort` that decides it leaves the winning side living and the
other one dead. So does `start` itself if it decides the match. -/
theorem match_living {fuel : ℕ} {w₀ w₁ u : World} {m₀ : Match} {es : List (ℕ × MatchCall)}
    (hm₀ : w₀.sceneMatch = some m₀) (hprepared : m₀.Prepared)
    (hstart : start env (perform env fuel) fuel w₀ = .ok () w₁)
    (hrun : (matchMachine env).run w₁ es = some u) :
    (∃ m₁, w₁.sceneMatch = some m₁ ∧ ∀ side, m₁.sideVictory = some side →
      0 < w₁.livingEntitySize m₁ side ∧ w₁.livingEntitySize m₁ side.other = 0) ∧
    ∃ m, u.sceneMatch = some m ∧
      (m.isdone = false →
        (∀ side, 0 < u.livingEntitySize m side) ∧ ∃ u', nextRoundEntity u = .ok () u') ∧
      (m.sideVictory = none ↔ m.isdone = false) ∧
      ∀ event w, (matchMachine env).step u event = some w → ∃ m', w.sceneMatch = some m' ∧
        (m.isdone = true → m'.isdone = true ∧ m'.sideVictory = m.sideVictory) ∧
        (m.isdone = false → (∀ e, event.2 ≠ .abort e) → ∀ side, m'.sideVictory = some side →
          0 < w.livingEntitySize m' side ∧ w.livingEntitySize m' side.other = 0) := by
  have hsizes {w : World} {m : Match} (hwon : w.Won m) (side : Side) (hside : m.sideVictory = some side) :
      0 < w.livingEntitySize m side ∧ w.livingEntitySize m side.other = 0 := by
    rw [World.livingEntitySize_pos, World.livingEntitySize_eq_zero]
    exact hwon side hside
  constructor
  · obtain ⟨m₁, hm₁, -, -, hwon⟩ := (wp_ok hstart).1 (wp_start hm₀ hprepared)
    exact ⟨m₁, hm₁, hsizes hwon⟩
  obtain ⟨m, hm, h⟩ := fighting_of_run hm₀ hprepared hstart hrun
  refine ⟨m, hm, fun hdone => ⟨fun side => World.livingEntitySize_pos.2 (h.living hdone side), ?_⟩,
    h.sideVictory, ?_⟩
  · have hturn := wp_nextRoundEntity hm
    cases hnext : nextRoundEntity u with
    | ok a u' => exact ⟨u', rfl⟩
    | error f u' =>
      exact absurd ((wp_error hnext).1 hturn).1 (h.nextTurn hdone)
  · intro event w hstep
    obtain ⟨m', hm', -, hlater, hwon⟩ := wp_of_step hstep (event.2.wp_run h hm)
    refine ⟨m', hm', hlater.decided, fun hdone hne => hsizes (hwon hne fun side hside => ?_)⟩
    rw [h.sideVictory.2 hdone] at hside
    cases hside

/-- A match of one entity against another, prepared. -/
def duel : World where
  entityAt e :=
    { side := if e = 1 then .allies else .enemy, pack := { hp := 9, maxhp := 9, mp := 2, roundCards := 3 } }
  scene := some { sceneMatch := some {
    entities := [1, 2], roundList := [1, 2], roundIterator := some 0, roundListSize := some 2 } }

theorem match_living_duel : ∃ w₁ u, start plainEnv (perform plainEnv 1) 1 duel = .ok () w₁ ∧
    (matchMachine plainEnv).run w₁ [(1, .roundEnd 1), (1, .hpAdd 1 (-9))] = some u ∧
    ∃ m, u.sceneMatch = some m ∧ (m.sideVictory = none ↔ m.isdone = false) := by
  have hstart := eq_ok_of_returns (show Returns (start plainEnv (perform plainEnv 1) 1) duel by decide +kernel)
  have hsome : ((matchMachine plainEnv).run (endState (start plainEnv (perform plainEnv 1) 1) duel)
      [(1, .roundEnd 1), (1, .hpAdd 1 (-9))]).isSome := by decide +kernel
  obtain ⟨u, hrun⟩ := Option.isSome_iff_exists.1 hsome
  have hprepared : Match.Prepared {
      entities := [1, 2], roundList := [1, 2], roundIterator := some 0, roundListSize := some 2 } :=
    ⟨rfl, rfl, rfl, rfl, rfl, fun _ => Iff.rfl, by decide⟩
  obtain ⟨-, m, hm, -, hvictory, -⟩ := match_living rfl hprepared hstart hrun
  exact ⟨_, u, hstart, hrun, m, hm, hvictory⟩

end Slam.Game
