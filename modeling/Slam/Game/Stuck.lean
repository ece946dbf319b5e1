import Slam.Game.Lifecycle

/-!
# A match that is never ended

`match_ends_iff` is about the next update. Here is what comes after it when that update raises: the same, whatever the
clients of the match ask for. The scene keeps the match that is done, so that no other one can be prepared in it, and
everything asked of that match is refused; the end of the match begins anew at each update and raises in `exit_match`,
since nobody can enter a match that is done. `match_never_ends` says so for every run.
-/

namespace Slam.Game

open Raising Track

variable {env : Env} {fuel depth : ℕ} {w u : World} {s : Scene} {m : Match} {e : ℤ}

/-- The match `m` of the scene `s` is done, and `e` is in it and has not entered it. -/
structure World.Stuck (w : World) (s : Scene) (m : Match) (e : ℤ) : Prop where
  scene : w.scene = some s
  sceneMatch : s.sceneMatch = some m
  isdone : m.isdone = true
  members : s.members ≠ []
  event : w.monsterEvent.isSome
  mem : e ∈ m.entities
  out : (w.entityAt e).backup = none
  copySet : w.copySet = true
  copyMembers : w.copyMembers ≠ []
  entityMaster : w.entityMaster.isSome

namespace World.Stuck

theorem match_eq (h : w.Stuck s m e) : w.sceneMatch = some m := (sceneMatch_of_scene h.scene).trans h.sceneMatch

theorem staysOut (h : w.Stuck s m e) (hu : StaysOut w u) : u.Stuck s m e where
  scene := hu.scene.trans h.scene
  sceneMatch := h.sceneMatch
  isdone := h.isdone
  members := h.members
  event := by
    rw [monsterEvent_congr (w := w) (by rw [hu.scene])]
    exact h.event
  mem := h.mem
  out := hu.out e h.out
  copySet := (congrArg World.copySet hu.frame :).trans h.copySet
  copyMembers := (congrArg World.copyMembers hu.frame :).symm ▸ h.copyMembers
  entityMaster := (congrArg World.entityMaster hu.frame :).symm ▸ h.entityMaster

theorem copyDone (h : w.Stuck s m e) : w.copyDone = false := by
  obtain ⟨master, hmaster⟩ := Option.isSome_iff_exists.1 h.entityMaster
  simp [World.copyDone, h.copyMembers, hmaster, h.scene]

end World.Stuck

/-! ### What is asked of a match that is stuck -/

theorem wp_inCopy_of_set {request : Run Unit} {P : World → Prop} (hset : w.copySet = true)
    (h : wp request (fun _ => P) (fun _ => P) w) : wp (inCopy request) (fun _ => P) (fun _ => P) w := by
  rw [inCopy, wp_bind, wp_get, wp_ite]
  exact ⟨fun _ => h, fun hnot => absurd hset hnot⟩

/-- No other match is prepared. -/
theorem wp_prepareMatch_stuck (h : w.Stuck s m e) :
    wp (prepareMatch env depth) (fun _ w' => w' = w) (fun _ w' => w' = w) w := by
  rw [prepareMatch, wp_bind, wp_get, wp_bind, wp_assertion, h.match_eq]
  exact ⟨fun hnone => absurd hnone Bool.false_ne_true, fun _ => rfl⟩

/-- A match that is done is not started. -/
theorem wp_startMatch_stuck (h : w.Stuck s m e) {act : Act → Run Unit} :
    wp (startMatch env act fuel) (fun _ w' => w' = w) (fun _ w' => w' = w) w := by
  rw [startMatch, wp_bind, wp_get, wp_bind, wp_assertion]
  refine ⟨fun _ => ?_, fun _ => rfl⟩
  rw [wp_ite]
  refine ⟨fun _ => rfl, fun _ => ?_⟩
  rw [wp_bind, wp_getMatch]
  refine ⟨fun m' hm' => ?_, fun _ => rfl⟩
  obtain rfl : m = m' := Option.some.inj (h.match_eq.symm.trans hm')
  rw [wp_bind, wp_assertion]
  refine ⟨fun _ => ?_, fun _ => rfl⟩
  rw [wp_bind, wp_assertion]
  refine ⟨fun hgoing => ?_, fun _ => rfl⟩
  rw [h.isdone] at hgoing
  cases hgoing

/-- A match that is done is not aborted. -/
theorem wp_abortMatch_stuck (h : w.Stuck s m e) (i : ℤ) :
    wp (abortMatch i) (fun _ w' => w' = w) (fun _ w' => w' = w) w := by
  rw [abortMatch, wp_bind, wp_get, wp_bind, wp_assertion]
  refine ⟨fun _ => ?_, fun _ => rfl⟩
  rw [wp_ite]
  refine ⟨fun _ => rfl, fun _ => ?_⟩
  refine wp_mono (wp_abort i w) ?_ fun _ _ hsame => hsame.1
  rintro _ _ ⟨m', hm', hgoing, -⟩
  obtain rfl : m = m' := Option.some.inj (h.match_eq.symm.trans hm')
  rw [h.isdone] at hgoing
  cases hgoing

/-- Nothing is played in a match that is done. -/
theorem wp_inMatch_stuck (h : w.Stuck s m e) (request : Run Unit) :
    wp (inMatch request) (fun _ w' => w' = w) (fun _ w' => w' = w) w := by
  refine wp_inCopy_of_set (P := fun w' => w' = w) h.copySet ?_
  rw [wp_bind, wp_get, h.match_eq]
  show wp (if m.isdone then pure () else request) _ _ w
  rw [wp_ite]
  exact ⟨fun _ => rfl, fun hnot => absurd h.isdone hnot⟩

/-- **An update raises**, and whoever has not entered the match stays out of it. -/
theorem wp_luaEntryUpdate_stuck (h : w.Stuck s m e) {act : Act → Run Unit} {ready : ℤ → Bool} :
    wp (luaEntryUpdate env act fuel depth ready) (fun _ _ => False) (fun _ w' => StaysOut w w') w := by
  rw [luaEntryUpdate, inCopy, wp_bind, wp_get, h.copySet, if_pos rfl, wp_bind, wp_get, wp_ite]
  refine ⟨fun hdone => absurd hdone (by rw [h.copyDone]; decide), fun _ => ?_⟩
  rw [copyUpdate, wp_bind, wp_get]
  simp only [h.scene]
  rw [wp_ite]
  refine ⟨fun hnone => absurd hnone h.members, fun _ => ?_⟩
  rw [sceneUpdate, wp_bind, wp_get, h.match_eq]
  show wp (if m.isdone then endMatch env depth else matchUpdate env act fuel ready) _ _ w
  rw [wp_ite]
  exact ⟨fun _ => wp_endMatch_of_out h.match_eq h.event h.mem h.out, fun hnot => absurd h.isdone hnot⟩

/-- **A request leaves the match stuck.** -/
theorem LifeCall.wp_stuck (h : w.Stuck s m e) (fuel : ℕ) (call : LifeCall) :
    wp (call.run env fuel depth) (fun _ w' => w'.Stuck s m e) (fun _ w' => w'.Stuck s m e) w := by
  have hsame {request : Run Unit} (hrequest : wp request (fun _ w' => w' = w) (fun _ w' => w' = w) w) :
      wp request (fun _ w' => w'.Stuck s m e) (fun _ w' => w'.Stuck s m e) w := by
    refine wp_mono hrequest ?_ ?_
    · rintro _ _ rfl
      exact h
    · rintro _ _ rfl
      exact h
  cases call with
  | matchPrepare => exact wp_inScene h fun _ _ => hsame (wp_prepareMatch_stuck h)
  | matchStart => exact wp_inScene h fun _ _ => hsame (wp_startMatch_stuck h)
  | matchAbort i => exact wp_inScene h fun _ _ => hsame (wp_abortMatch_stuck h i)
  | cardPlayJudge i c pick => exact hsame (wp_inMatch_stuck h _)
  | cardPlay i c pick => exact hsame (wp_inMatch_stuck h _)
  | cardDiscardJudge i c => exact hsame (wp_inMatch_stuck h _)
  | cardDiscard i c => exact hsame (wp_inMatch_stuck h _)
  | roundEnd i => exact hsame (wp_inMatch_stuck h _)
  | update ready => exact wp_mono (wp_luaEntryUpdate_stuck h) (fun _ _ hfalse => hfalse.elim) fun _ _ hu => h.staysOut hu

/-! ### Every run -/

theorem stuck_of_run {x y : Watched} (h : x.world.Stuck s m e) {calls : List (ℕ × LifeCall)}
    (hrun : (lifeMachine env depth).run x calls = some y) : y.world.Stuck s m e := by
  refine Machine.invariant (I := fun y : Watched => y.world.Stuck s m e) (fun x event x' hx hstep => ?_) h hrun
  obtain rfl := Option.some.inj hstep
  exact endState_of_wp (P := fun w' : World => w'.Stuck s m e) (event.2.wp_stuck hx event.1)

/-- A match that is done in a scene with members is stuck, or everybody in it has entered it. -/
theorem World.Steady.stuck {before : ℤ → Pack} (h : w.Steady depth before) (hs : w.scene = some s)
    (hm : s.sceneMatch = some m) (hdone : m.isdone = true) (hmembers : s.members ≠ []) (he : e ∈ m.entities)
    (hout : (w.entityAt e).backup = none) : w.Stuck s m e := by
  have hevent : w.monsterEvent.isSome := by
    rcases h.state s hs with ⟨m', -, hlocked⟩ | ⟨hregular, -⟩
    · exact hlocked.event
    · exact (hregular.joined m hm).event
  obtain ⟨hset, hcopy, hmaster⟩ := h.based (by rw [hs]; exact Option.some_ne_none s)
  exact ⟨hs, hm, hdone, hmembers, hevent, he, hout, hset, hcopy, hmaster⟩

/-- **A match that the next update does not end is never ended.** In every state that requests reach from a copy at peace:
if the match of a scene with members is done and somebody in it has not entered it, then after any further requests the
scene is the same, with the same match, and every update raises. -/
theorem match_never_ends {w₀ : World} (h₀ : w₀.AtPeace) {calls : List (ℕ × LifeCall)} {x : Watched}
    (hrun : (lifeMachine env depth).run ⟨w₀, w₀.pack⟩ calls = some x) (hs : x.world.scene = some s)
    (hm : s.sceneMatch = some m) (hdone : m.isdone = true) (hmembers : s.members ≠ []) (he : e ∈ m.entities)
    (hout : (x.world.entityAt e).backup = none) {more : List (ℕ × LifeCall)} {y : Watched}
    (hmore : (lifeMachine env depth).run x more = some y) :
    y.world.scene = some s ∧ (y.world.entityAt e).backup = none ∧ ∀ (fuel : ℕ) (ready : ℤ → Bool),
      wp (luaEntryUpdate env (perform env fuel) fuel depth ready) (fun _ _ => False) (fun _ _ => True) y.world := by
  have hstuck : y.world.Stuck s m e :=
    stuck_of_run ((steady_of_run h₀ hrun).stuck hs hm hdone hmembers he hout) hmore
  refine ⟨hstuck.scene, hstuck.out, fun fuel ready => ?_⟩
  exact wp_mono (wp_luaEntryUpdate_stuck hstuck) (fun _ _ hfalse => hfalse) fun _ _ _ => trivial

/-- In the camp the match is aborted before it is started; then another one is asked for. -/
theorem match_never_ends_camp : ∃ (x y : Watched) (s : Scene),
    (lifeMachine plainEnv 1).run ⟨camp, camp.pack⟩ [(1, .matchPrepare), (1, .matchAbort 1)] = some x ∧
      (lifeMachine plainEnv 1).run x [(1, .update fun _ => true), (1, .matchPrepare), (1, .matchStart)] = some y ∧
        y.world.scene = some s ∧ (y.world.entityAt 1).backup = none ∧ ∀ (fuel : ℕ) (ready : ℤ → Bool),
          wp (luaEntryUpdate plainEnv (perform plainEnv fuel) fuel 1 ready) (fun _ _ => False) (fun _ _ => True) y.world := by
  obtain ⟨x, hrun⟩ : ∃ x, (lifeMachine plainEnv 1).run ⟨camp, camp.pack⟩ [(1, .matchPrepare), (1, .matchAbort 1)] = some x :=
    ⟨_, rfl⟩
  obtain ⟨y, hmore⟩ : ∃ y, (lifeMachine plainEnv 1).run x [(1, .update fun _ => true), (1, .matchPrepare), (1, .matchStart)] =
      some y := ⟨_, rfl⟩
  have hend : ((lifeMachine plainEnv 1).run ⟨camp, camp.pack⟩ [(1, .matchPrepare), (1, .matchAbort 1)]).any fun x =>
      (x.world.entityAt 1).backup.isNone && x.world.scene.any fun s => decide (s.members ≠ []) && s.sceneMatch.any fun m =>
        m.isdone && decide (1 ∈ m.entities) := by
    decide +kernel
  rw [hrun, Option.any_some, Bool.and_eq_true, Option.any_eq_true] at hend
  obtain ⟨hout, s, hs, hend⟩ := hend
  rw [Bool.and_eq_true, Option.any_eq_true] at hend
  obtain ⟨hmembers, m, hm, hend⟩ := hend
  obtain ⟨hdone, hmem⟩ := Bool.and_eq_true_iff.1 hend
  exact ⟨x, y, s, hrun, hmore, match_never_ends atPeace_camp hrun hs hm hdone (of_decide_eq_true hmembers)
    (of_decide_eq_true hmem) (Option.isNone_iff_eq_none.1 hout) hmore⟩

end Slam.Game
