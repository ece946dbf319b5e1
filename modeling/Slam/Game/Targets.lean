import Slam.Game.SceneMatch

/-!
# The targets of a card

`CardGetTargets` looks at sides and at placeholders, not at deaths: whoever has died in a match stays among
its entities, and it is `damageOne` that passes over the dead. A puppet is a target by its place in the line-up
of someone who fights, whether it fights itself or not. What a target type allows is `Legal`.
-/

namespace Slam.Game

open Raising

/-- What a target type allows: an entity of the match on one side or any, the acting entity itself, a puppet
in its placeholders or in those of one side, or the pick, whatever it is. -/
def World.Legal (w : World) (m : Match) (e : ℤ) (pick : Option ℤ) (t : ℤ) : CardTargetType → Prop
  | .none => pick = some t
  | .self => t = e
  | .selfPuppet => t ∈ w.placedPuppets e
  | .pickSingleAllies | .alliesAll | .alliesRandom => t ∈ m.entities ∧ (w.entityAt t).side = (w.entityAt e).side
  | .pickSingleEnemy | .enemyAll | .enemyRandom => t ∈ m.entities ∧ (w.entityAt t).side = (w.entityAt e).side.other
  | .alliesPuppetAll =>
    ∃ u ∈ m.entities, (w.entityAt u).side = (w.entityAt e).side ∧ t ∈ w.placedPuppets u
  | .enemyPuppetAll =>
    ∃ u ∈ m.entities, (w.entityAt u).side = (w.entityAt e).side.other ∧ t ∈ w.placedPuppets u
  | .all => t ∈ m.entities

variable {env : Env} {w : World} {m : Match} {e c t : ℤ} {side : Side} {pick : Option ℤ} {keys : List ℤ}

theorem World.mem_sideMembers : t ∈ w.sideMembers m side ↔ t ∈ m.entities ∧ (w.entityAt t).side = side := by
  rw [sideMembers, List.mem_filter, decide_eq_true_eq]

theorem World.mem_sidePuppets : t ∈ ((w.sideMembers m side).flatMap w.placedPuppets).dedup ↔
    ∃ u ∈ m.entities, (w.entityAt u).side = side ∧ t ∈ w.placedPuppets u := by
  simp only [List.mem_dedup, List.mem_flatMap, mem_sideMembers, and_assoc]

/-- The program returns targets of a kind, and, where it must, some if there are any. -/
def Finds (x : Run (List ℤ)) (w : World) (must : Prop) (legal : ℤ → Prop) : Prop :=
  wp x (fun targets _ => (∀ t ∈ targets, legal t) ∧ (must → (∃ t, legal t) → targets ≠ [])) (fun _ _ => False) w

/-- All of a table. -/
theorem finds_pure {must : Prop} {legal : ℤ → Prop} (h : ∀ t, t ∈ keys ↔ legal t) :
    Finds (pure keys) w must legal := by
  refine ⟨fun t ht => (h t).1 ht, ?_⟩
  rintro - ⟨t, ht⟩ rfl
  exact List.not_mem_nil ((h t).2 ht)

/-- A random key of a table. -/
theorem finds_random {must : Prop} {legal : ℤ → Prop} (h : ∀ t, t ∈ keys ↔ legal t) :
    Finds (do return keyTable (← tableRandom env e keys)) w must legal := by
  rw [Finds, wp_bind]
  by_cases hkeys : keys = []
  · subst hkeys
    refine ⟨fun t ht => absurd ht List.not_mem_nil, ?_⟩
    rintro - ⟨t, ht⟩ -
    exact List.not_mem_nil ((h t).2 ht)
  · obtain ⟨k, hk, hrandom⟩ := tableRandom_apply env hkeys w
    rw [wp_ok hrandom]
    refine ⟨fun t ht => ?_, fun _ _ => List.cons_ne_nil _ _⟩
    rw [List.mem_singleton.1 ht]
    exact (h k).1 hk

/-- The entity picked, if it is on the side, or a random one of the side. -/
theorem finds_targetsRandom (hm : w.sceneMatch = some m) :
    Finds (targetsRandom env e side pick) w (pick = none) fun t => t ∈ m.entities ∧ (w.entityAt t).side = side := by
  rw [Finds, targetsRandom, wp_bind, wp_getMatch]
  refine ⟨fun m' hm' => ?_, fun hnone => by cases hm.symm.trans hnone⟩
  cases hm.symm.trans hm'
  cases pick with
  | none => exact finds_random fun t => World.mem_sideMembers
  | some p =>
    refine ⟨fun t ht => ?_, fun h => by cases h⟩
    split_ifs at ht with hp
    · rw [List.mem_singleton.1 ht]
      exact World.mem_sideMembers.1 hp
    · exact absurd ht List.not_mem_nil

/-- What is computed from the match. -/
theorem finds_getMatch {must : Prop} {legal : ℤ → Prop} {f : Match → List ℤ} (hm : w.sceneMatch = some m)
    (h : ∀ t, t ∈ f m ↔ legal t) : Finds (do return f (← getMatch)) w must legal := by
  rw [Finds, wp_bind, wp_getMatch]
  refine ⟨fun m' hm' => ?_, fun hnone => by cases hm.symm.trans hnone⟩
  cases hm.symm.trans hm'
  exact finds_pure h

/-- **What `CardGetTargets` returns.** -/
theorem finds_cardGetTargets (hm : w.sceneMatch = some m) :
    Finds (cardGetTargets env e c pick) w (pick = none) fun t =>
      w.Legal m e pick t (w.cardAt c).base.requireTarget := by
  rw [Finds, cardGetTargets, wp_bind, wp_get]
  cases (w.cardAt c).base.requireTarget with
  | none => exact finds_pure fun t => by cases pick <;> simp [keyTable, World.Legal, eq_comm]
  | self =>
    refine ⟨fun t ht => ?_, fun h _ => by simp [h]⟩
    split_ifs at ht with hp
    · exact List.mem_singleton.1 ht
    · exact absurd ht List.not_mem_nil
  | selfPuppet => exact finds_random fun t => List.mem_dedup
  | pickSingleAllies => exact finds_targetsRandom hm
  | pickSingleEnemy => exact finds_targetsRandom hm
  | alliesRandom => exact finds_targetsRandom hm
  | enemyRandom => exact finds_targetsRandom hm
  | alliesAll => exact finds_getMatch hm fun t => World.mem_sideMembers
  | enemyAll => exact finds_getMatch hm fun t => World.mem_sideMembers
  | alliesPuppetAll => exact finds_getMatch hm fun t => World.mem_sidePuppets
  | enemyPuppetAll => exact finds_getMatch hm fun t => World.mem_sidePuppets
  | all => exact finds_getMatch hm fun t => Iff.rfl

/-- A pick is accepted only if it is among the targets of the card. -/
theorem wp_cardPlayJudge (hm : w.sceneMatch = some m) :
    wp (cardPlayJudge env e c pick) (fun accepted _ => accepted →
      ∃ p, pick = some p ∧ w.Legal m e pick p (w.cardAt c).base.requireTarget) (fun _ _ => True) w := by
  unfold cardPlayJudge
  simp only [wp_ite, wp_bind, wp_pure, wp_assertion, wp_get, Bool.false_eq_true, false_imp_iff, implies_true,
    true_and, and_true]
  intro _ _ _ _ _
  cases pick with
  | none =>
    intro h
    cases h
  | some p =>
    rw [wp_bind]
    refine wp_mono (finds_cardGetTargets hm) (fun targets w' hfound haccepted => ?_) fun _ _ _ => trivial
    exact ⟨p, rfl, hfound.1 p (of_decide_eq_true haccepted)⟩

/-- **Targets are what the target type allows.** In a match `CardGetTargets` returns without raising; every
target is one that the type of the card allows, dead or alive; without a pick there is a target whenever there
is one that is allowed; and `card_play_judge` accepts a pick only if the type allows it. -/
theorem targets_legal (hm : w.sceneMatch = some m) :
    wp (cardGetTargets env e c pick) (fun targets _ =>
      (∀ t ∈ targets, w.Legal m e pick t (w.cardAt c).base.requireTarget) ∧
      (pick = none → (∃ t, w.Legal m e pick t (w.cardAt c).base.requireTarget) → targets ≠ [])) (fun _ _ => False) w ∧
    wp (cardPlayJudge env e c pick) (fun accepted _ => accepted →
      ∃ p, pick = some p ∧ w.Legal m e pick p (w.cardAt c).base.requireTarget) (fun _ _ => True) w :=
  ⟨finds_cardGetTargets hm, wp_cardPlayJudge hm⟩

/-- A match of one against two. -/
def fallenMatch : Match :=
  { isstart := true, entities := [1, 2, 3], roundEntityid := some 1, roundList := [1, 2, 3] }

/-- The first of the two has died; the card is for an enemy that is picked. -/
def fallenWorld : World where
  entityAt e :=
    if e = 1 then { pack := { span := .match, hp := 9, stackHold := [5] } }
    else if e = 2 then { side := .enemy, death := true, pack := { span := .match } }
    else { side := .enemy, pack := { span := .match, hp := 9 } }
  cardAt _ := { baseid := 5, base := { requireTarget := .pickSingleEnemy } }
  scene := some { sceneMatch := some fallenMatch }

theorem targets_legal_fallenWorld :
    wp (cardPlayJudge plainEnv 1 5 (some 2)) (fun accepted _ => accepted →
      ∃ p, some 2 = some p ∧ fallenWorld.Legal fallenMatch 1 (some 2) p .pickSingleEnemy) (fun _ _ => True)
      fallenWorld :=
  (targets_legal (w := fallenWorld) (m := fallenMatch) rfl).2

/-- The dead one is a target like the living one: it is returned, and its pick is accepted. -/
theorem targets_fallenWorld :
    (fallenWorld.entityAt 2).death = true ∧
      wp (cardGetTargets plainEnv 1 5 (some 2)) (fun targets _ => targets = [2]) (fun _ _ => False) fallenWorld ∧
      wp (cardPlayJudge plainEnv 1 5 (some 2)) (fun accepted _ => accepted = true) (fun _ _ => False) fallenWorld := by
  decide +kernel

end Slam.Game
