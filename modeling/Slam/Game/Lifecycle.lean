import Slam.Game.Updating
import Slam.Lib.Machine

/-!
# The life of a match

A client prepares a match, starts it, plays in it and aborts it, in any order, between the updates of the copy; a
request that raises is over, and the next one comes. `Watched` adds to the world the pack that each entity had when
it was last seen outside of a match.

`match_ends_iff` is about the next update after a match is done, in every state that such a run reaches. It ends the
match exactly if everybody in it has entered it, or if the scene has lost its members and is closed anyway. A match
that is aborted after `prepare_match` and before `start_match` is done and nobody has entered it: `exit_match` raises
at the next update, and at every one after it.
-/

namespace Slam.Game

open Raising Track

variable {env : Env} {fuel depth : ℕ} {w : World} {before : ℤ → Pack}

/-! ### The requests -/

/-- A request of a client around a match, or an update. -/
inductive LifeCall
  | matchPrepare
  | matchStart
  | matchAbort (e : ℤ)
  | cardPlayJudge (e c : ℤ) (pick : Option ℤ)
  | cardPlay (e c : ℤ) (pick : Option ℤ)
  | cardDiscardJudge (e c : ℤ)
  | cardDiscard (e c : ℤ)
  | roundEnd (e : ℤ)
  | update (ready : ℤ → Bool)

/-- What a request does. -/
def LifeCall.run (env : Env) (fuel depth : ℕ) : LifeCall → Run Unit
  | matchPrepare => luaEntryMatchPrepare env depth
  | matchStart => luaEntryMatchStart env (perform env fuel) fuel
  | matchAbort e => luaEntryMatchAbort e
  | cardPlayJudge e c pick => luaEntryCardPlayJudge env e c pick
  | cardPlay e c pick => luaEntryCardPlay env (perform env fuel) e c pick
  | cardDiscardJudge e c => luaEntryCardDiscardJudge e c
  | cardDiscard e c => luaEntryCardDiscard env (perform env fuel) e c
  | roundEnd e => luaEntryRoundEnd env (perform env fuel) fuel e
  | update ready => luaEntryUpdate env (perform env fuel) fuel depth ready

/-- A world and the pack that each entity had when it was last seen outside of a match. -/
structure Watched where
  world : World
  before : ℤ → Pack

/-- Requests one after the other, whether they return or raise. -/
def lifeMachine (env : Env) (depth : ℕ) : Machine Watched (ℕ × LifeCall) where
  step x event :=
    let w := endState (event.2.run env event.1 depth) x.world
    some ⟨w, w.since x.before⟩

/-! ### A request to a match that goes on -/

/-- Nobody can do anything before somebody has a turn. -/
theorem wp_turn_waiting {α : Type} {m : Match} (hm : w.sceneMatch = some m) (hwaiting : m.roundEntityid = none) (f : Func)
    (e : ℤ) (request : Match → Run α) : wp (do
      let m ← getMatch
      assertion (m.isdone = false) f
      assertion (m.roundEntityid = some e) f
      request m) (fun _ w' => w' = w) (fun _ w' => w' = w) w := by
  rw [wp_bind, wp_getMatch]
  refine ⟨fun m' hm' => ?_, fun _ => rfl⟩
  obtain rfl : m = m' := Option.some.inj (hm.symm.trans hm')
  rw [wp_bind, wp_assertion]
  refine ⟨fun _ => ?_, fun _ => rfl⟩
  rw [wp_bind, wp_assertion]
  refine ⟨fun hturn => ?_, fun _ => rfl⟩
  rw [hwaiting] at hturn
  cases hturn

theorem wp_matchRoundEnd_waiting {m : Match} (hm : w.sceneMatch = some m) (hwaiting : m.roundEntityid = none)
    {act : Act → Run Unit} (e : ℤ) : wp (matchRoundEnd env act fuel e) (fun _ w' => w' = w) (fun _ w' => w' = w) w := by
  rw [matchRoundEnd, wp_bind, wp_getMatch]
  refine ⟨fun m' hm' => ?_, fun _ => rfl⟩
  obtain rfl : m = m' := Option.some.inj (hm.symm.trans hm')
  rw [wp_bind, wp_assertion]
  refine ⟨fun _ => ?_, fun _ => rfl⟩
  rw [wp_ite]
  refine ⟨fun _ => rfl, fun hturn => ?_⟩
  rw [hwaiting] at hturn
  exact absurd (Option.some_ne_none e).symm hturn

/-- A request that is only made in a match that is not done keeps the order if it goes on in that match, and does nothing
before somebody has a turn. -/
theorem wp_inMatch_steady {request : Run Unit} (h : w.Steady depth before)
    (hunderway : ∀ m, w.sceneMatch = some m → m.isdone = false →
      wp request (fun _ w' => Underway w w') (fun _ w' => Underway w w') w)
    (hwaiting : ∀ m, w.sceneMatch = some m → m.roundEntityid = none →
      wp request (fun _ w' => w' = w) (fun _ w' => w' = w) w) :
    wp (inMatch request) (fun _ w' => w'.Steady depth (w'.since before))
      (fun _ w' => w'.Steady depth (w'.since before)) w := by
  rw [inMatch, inCopy, wp_bind, wp_get, wp_ite]
  refine ⟨fun _ => ?_, fun _ => h.same⟩
  rw [wp_bind, wp_get]
  cases hm : w.sceneMatch with
  | none => exact h.same
  | some m =>
    show wp (if m.isdone then pure () else request) _ _ w
    rw [wp_ite]
    refine ⟨fun _ => h.same, fun hdone => ?_⟩
    by_cases hturn : m.roundEntityid = none
    · refine wp_mono (hwaiting m hm hturn) ?_ ?_
      · rintro _ _ rfl
        exact h.same
      · rintro _ _ rfl
        exact h.same
    · have hgo {w' : World} (hw' : Underway w w') : w'.Steady depth (w'.since before) := by
        refine h.underway hw' fun m₁ _ hm₁ _ _ hturn₁ => ?_
        obtain rfl : m = m₁ := Option.some.inj (hm.symm.trans hm₁)
        exact absurd hturn₁ hturn
      exact wp_mono (hunderway m hm (Bool.eq_false_of_not_eq_true hdone)) (fun _ _ => hgo) fun _ _ => hgo

/-! ### Preparing, starting and aborting -/

/-- The checks that open the entries of a scene. -/
theorem wp_inScene {request : Run Unit} {P : World → Prop} (hsame : P w)
    (h : ∀ s, w.scene = some s → wp request (fun _ => P) (fun _ => P) w) :
    wp (inCopy do if (← get).scene.isSome then request) (fun _ => P) (fun _ => P) w := by
  rw [inCopy, wp_bind, wp_get, wp_ite]
  refine ⟨fun _ => ?_, fun _ => hsame⟩
  rw [wp_bind, wp_get, wp_ite]
  refine ⟨fun hsome => ?_, fun _ => hsame⟩
  obtain ⟨s, hs⟩ := Option.isSome_iff_exists.1 hsome
  exact h s hs

theorem wp_prepareMatch_steady {s : Scene} (h : w.Steady depth before) (hs : w.scene = some s) :
    wp (prepareMatch env depth) (fun _ w' => w'.Steady depth (w'.since before))
      (fun _ w' => w'.Steady depth (w'.since before)) w := by
  cases hm : s.sceneMatch with
  | some m =>
    rw [prepareMatch, wp_bind, wp_get, wp_bind, wp_assertion, World.sceneMatch_of_scene hs, hm]
    exact ⟨fun hnone => absurd hnone Bool.false_ne_true, fun _ => h.same⟩
  | none =>
    have hregular : w.Regular depth s := by
      rcases h.state s hs with ⟨m, hsome, -⟩ | ⟨hregular, -⟩
      · rw [hm] at hsome
        cases hsome
      · exact hregular
    exact wp_prepareMatch hs hregular.ally (h.out ((World.sceneMatch_of_scene hs).trans hm)) h.same
      fun hevent u => h.gathered hs hregular.ally hevent

theorem wp_startMatch_steady {s : Scene} (h : w.Steady depth before) (hs : w.scene = some s) :
    wp (startMatch env (perform env fuel) fuel) (fun _ w' => w'.Steady depth (w'.since before))
      (fun _ w' => w'.Steady depth (w'.since before)) w := by
  rw [startMatch, wp_bind, wp_get, wp_bind, wp_assertion]
  refine ⟨fun _ => ?_, fun _ => h.same⟩
  rw [wp_ite]
  refine ⟨fun _ => h.same, fun _ => ?_⟩
  rw [wp_bind, wp_getMatch]
  refine ⟨fun m hmatch => ?_, fun _ => h.same⟩
  have hm := (World.sceneMatch_of_scene hs).symm.trans hmatch
  rw [wp_bind, wp_assertion]
  refine ⟨fun hnot => ?_, fun _ => h.same⟩
  rw [wp_bind, wp_assertion]
  refine ⟨fun hdone => ?_, fun _ => h.same⟩
  rcases h.state s hs with ⟨m₁, hm₁, hlocked⟩ | ⟨hregular, hbefore⟩
  · obtain rfl : m = m₁ := Option.some.inj (hm.symm.trans hm₁)
    rw [hlocked.isdone] at hdone
    cases hdone
  · have hjoined := hregular.joined m hm
    obtain ⟨hturn, hout⟩ := hjoined.idle hnot
    refine wp_start_entering hmatch hturn hjoined.mustered.nodup_list hout h.same fun hliving l u w' hl hu hw' => ?_
    refine (h.entering hs hregular hbefore hm hnot hl hliving hu).underway hw' fun m₁ _ hm₁ _ hnot₁ => ?_
    -- The match has been started by then.
    obtain ⟨m₂, hm₂, honward, -⟩ := hu.onward
    obtain rfl : m₁ = m₂ := Option.some.inj (hm₁.symm.trans hm₂)
    rw [honward.isstart] at hnot₁
    cases hnot₁

theorem wp_abortMatch_steady (h : w.Steady depth before) (e : ℤ) :
    wp (abortMatch e) (fun _ w' => w'.Steady depth (w'.since before)) (fun _ w' => w'.Steady depth (w'.since before))
      w := by
  rw [abortMatch, wp_bind, wp_get, wp_bind, wp_assertion]
  refine ⟨fun _ => ?_, fun _ => h.same⟩
  rw [wp_ite]
  refine ⟨fun _ => h.same, fun _ => ?_⟩
  refine wp_mono (wp_abort e w) ?_ ?_
  · rintro _ _ ⟨m, hm, hdone, rfl⟩
    refine h.underway (.decided hm hdone _) fun m₁ m₂ hm₁ hm₂ _ hturn => ?_
    rw [World.decided, World.sceneMatch_mapMatch, hm₁] at hm₂
    cases hm₂
    exact hturn
  · rintro _ _ ⟨rfl, -⟩
    exact h.same

/-! ### Runs -/

/-- **A request leaves the world steady.** -/
theorem LifeCall.wp_steady (h : w.Steady depth before) (fuel : ℕ) (call : LifeCall) :
    wp (call.run env fuel depth) (fun _ w' => w'.Steady depth (w'.since before))
      (fun _ w' => w'.Steady depth (w'.since before)) w := by
  have hscript := script_follows_true env fuel
  cases call with
  | matchPrepare => exact wp_inScene h.same fun s hs => wp_prepareMatch_steady h hs
  | matchStart => exact wp_inScene h.same fun s hs => wp_startMatch_steady h hs
  | matchAbort e => exact wp_inScene h.same fun s _ => wp_abortMatch_steady h e
  | cardPlayJudge e c pick =>
    refine wp_inMatch_steady h (fun m _ _ => ?_) fun m hm hturn => ?_
    · exact underway_of_quiet ((quiet_matchJudge _ rfl e (quiet_cardPlayJudge e c pick)).map _) w
    · rw [wp_discard]
      exact wp_turn_waiting hm hturn _ e _
  | cardPlay e c pick =>
    refine wp_inMatch_steady h (fun m _ _ => ?_) fun m hm hturn => ?_
    · exact underway_of_logic ((follows_matchCardPlay hscript e c pick).map _) w
    · rw [wp_discard]
      exact wp_turn_waiting hm hturn _ e _
  | cardDiscardJudge e c =>
    refine wp_inMatch_steady h (fun m _ _ => ?_) fun m hm hturn => ?_
    · exact underway_of_quiet ((quiet_matchJudge _ rfl e (quiet_cardDiscardJudge e c)).map _) w
    · rw [wp_discard]
      exact wp_turn_waiting hm hturn _ e _
  | cardDiscard e c =>
    refine wp_inMatch_steady h (fun m _ _ => ?_) fun m hm hturn => wp_turn_waiting hm hturn _ e _
    exact underway_of_logic (follows_matchCardDiscard hscript e c) w
  | roundEnd e =>
    refine wp_inMatch_steady h (fun m hm hdone => ?_) fun m hm hturn => wp_matchRoundEnd_waiting hm hturn e
    exact wp_underway (wp_matchRoundEnd hscript hm hdone e)
  | update ready => exact wp_mono (wp_luaEntryUpdate h) (fun _ _ hw' => hw'.1) fun _ _ hw' => hw'.1

/-- No match has been prepared, nobody is in one, and the members of the scene and those in their placeholders are
allies with a pack of the copy. -/
structure World.AtPeace (w : World) : Prop where
  out : ∀ e, (w.entityAt e).backup = none
  sceneMatch : w.sceneMatch = none
  based : w.scene ≠ none → w.copySet = true ∧ w.copyMembers ≠ [] ∧ w.entityMaster.isSome
  ally : ∀ s, w.scene = some s → ∀ e ∈ w.roster s, w.Ally e

theorem World.AtPeace.steady (h : w.AtPeace) : w.Steady depth w.pack := by
  refine ⟨fun e hin => absurd (h.out e) hin, h.based, fun s hs => .inr ⟨⟨h.ally s hs, fun m hm => ?_⟩, fun e =>
    World.home_of_out (h.out e)⟩⟩
  have hnone := h.sceneMatch
  rw [World.sceneMatch_of_scene hs, hm] at hnone
  cases hnone

/-- In every run the world stays steady. -/
theorem steady_of_run {w₀ : World} (h₀ : w₀.AtPeace) {calls : List (ℕ × LifeCall)} {x : Watched}
    (hrun : (lifeMachine env depth).run ⟨w₀, w₀.pack⟩ calls = some x) : x.world.Steady depth x.before := by
  refine Machine.invariant (I := fun x : Watched => x.world.Steady depth x.before) (fun x event x' hx hstep => ?_)
    h₀.steady hrun
  obtain rfl := Option.some.inj hstep
  exact endState_of_wp (P := fun w' : World => w'.Steady depth (w'.since x.before)) (event.2.wp_steady hx event.1)

/-- The next update ends the match `m`, and it returns. -/
def Watched.Ends (env : Env) (fuel depth : ℕ) (ready : ℤ → Bool) (m : Match) (x : Watched) : Prop :=
  wp (luaEntryUpdate env (perform env fuel) fuel depth ready) (fun _ w' => Ended x.before m x.world w')
    (fun _ _ => False) x.world

/-- **When a match that is done is ended by the next update.** In every state that requests reach from a copy at peace,
in whatever order and whether they return or raise: if the match of the scene is done, then the next update returns, with
no match left and every ally of it back with the very pack that it had before it entered, which has only taken hp and
maxhp, exactly if everybody in the match has entered it or the scene has no members any more. -/
theorem match_ends_iff {w₀ : World} (h₀ : w₀.AtPeace) {calls : List (ℕ × LifeCall)} {x : Watched}
    (hrun : (lifeMachine env depth).run ⟨w₀, w₀.pack⟩ calls = some x) {s : Scene} {m : Match} (hs : x.world.scene = some s)
    (hm : s.sceneMatch = some m) (hdone : m.isdone = true) (fuel : ℕ) (ready : ℤ → Bool) :
    x.Ends env fuel depth ready m ↔ s.members = [] ∨ ∀ e ∈ m.entities, (x.world.entityAt e).backup ≠ none := by
  have hupdate : wp (luaEntryUpdate env (perform env fuel) fuel depth ready) _ _ _ :=
    wp_luaEntryUpdate (steady_of_run h₀ hrun)
  rw [Watched.Ends]
  unfold wp at hupdate ⊢
  cases hx : luaEntryUpdate env (perform env fuel) fuel depth ready x.world with
  | ok a w' =>
    rw [hx] at hupdate
    obtain ⟨hendable, hended⟩ := hupdate.2 s m hs hm hdone
    exact ⟨fun _ => hendable, fun _ => hended⟩
  | error f w' =>
    rw [hx] at hupdate
    exact ⟨fun hfalse => hfalse.elim, fun hendable => hupdate.2 s m hs hm hdone hendable⟩

/-! ### An example -/

/-- A copy with one member, who has triggered an event with a monster. -/
def camp : World where
  entityAt e := if e = 1 then { side := .allies, pack := { span := .copy, hp := 9, maxhp := 9, placeholders := [(1, 1)] } } else {}
  nextEntity := 2
  entityMaster := some 1
  copyMembers := [1]
  scene := some { members := [1], triggerEvent := some { id := 1, category := .monster, content := some { monster := some [(7, 1)] } } }

theorem atPeace_camp : camp.AtPeace := by
  refine ⟨fun e => ?_, rfl, fun _ => ⟨rfl, by decide, rfl⟩, fun s hs e he => ?_⟩
  · simp only [camp]
    split_ifs
    · rfl
    · rfl
  · cases hs
    have hroster : e = 1 := by simpa [World.roster, World.home, Entity.home, camp] using he
    rw [hroster]
    exact ⟨rfl, rfl, by decide, by decide⟩

/-- After `start_match` the match of the camp is ended. -/
theorem match_ends_camp : ∃ x s m,
    (lifeMachine plainEnv 1).run ⟨camp, camp.pack⟩ [(1, .matchPrepare), (1, .matchStart), (1, .matchAbort 1)] = some x ∧
      x.world.scene = some s ∧ s.sceneMatch = some m ∧ m.isdone = true ∧ x.Ends plainEnv 1 1 (fun _ => false) m := by
  obtain ⟨x, hrun⟩ : ∃ x, (lifeMachine plainEnv 1).run ⟨camp, camp.pack⟩
      [(1, .matchPrepare), (1, .matchStart), (1, .matchAbort 1)] = some x := ⟨_, rfl⟩
  have hend : ((lifeMachine plainEnv 1).run ⟨camp, camp.pack⟩
      [(1, .matchPrepare), (1, .matchStart), (1, .matchAbort 1)]).any fun x => x.world.scene.any fun s => s.sceneMatch.any fun m =>
        m.isdone && m.entities.all fun e => (x.world.entityAt e).backup.isSome := by decide +kernel
  rw [hrun, Option.any_some, Option.any_eq_true] at hend
  obtain ⟨s, hs, hend⟩ := hend
  obtain ⟨m, hm, hend⟩ := (Option.any_eq_true ..).1 hend
  obtain ⟨hdone, hall⟩ := Bool.and_eq_true_iff.1 hend
  refine ⟨x, s, m, hrun, hs, hm, hdone, (match_ends_iff atPeace_camp hrun hs hm hdone 1 _).2 (.inr fun e he => ?_)⟩
  exact Option.isSome_iff_ne_none.1 (List.all_eq_true.1 hall e he)

/-- **Aborting a match before it is started locks the scene**: the next update raises in `exit_match`. -/
theorem match_locked_camp : ¬ ∀ (env : Env) (depth : ℕ) (w₀ : World), w₀.AtPeace → ∀ (calls : List (ℕ × LifeCall))
    (x : Watched), (lifeMachine env depth).run ⟨w₀, w₀.pack⟩ calls = some x → ∀ (s : Scene) (m : Match),
      x.world.scene = some s → s.sceneMatch = some m → m.isdone = true → ∀ (fuel : ℕ) (ready : ℤ → Bool),
        x.Ends env fuel depth ready m := by
  intro hends
  obtain ⟨x, hrun⟩ : ∃ x, (lifeMachine plainEnv 1).run ⟨camp, camp.pack⟩ [(1, .matchPrepare), (1, .matchAbort 1)] = some x :=
    ⟨_, rfl⟩
  have hend : ((lifeMachine plainEnv 1).run ⟨camp, camp.pack⟩ [(1, .matchPrepare), (1, .matchAbort 1)]).any fun x =>
      x.world.scene.any fun s => s.sceneMatch.any fun m => m.isdone &&
        decide (fault (luaEntryUpdate plainEnv (perform plainEnv 1) 1 1 fun _ => false) x.world = some (.assertion .exitMatch)) := by
    decide +kernel
  rw [hrun, Option.any_some, Option.any_eq_true] at hend
  obtain ⟨s, hs, hend⟩ := hend
  obtain ⟨m, hm, hend⟩ := (Option.any_eq_true ..).1 hend
  obtain ⟨hdone, hfault⟩ := Bool.and_eq_true_iff.1 hend
  have hraises := eq_error_of_fault (of_decide_eq_true hfault)
  exact (wp_error hraises).1 (hends plainEnv 1 camp atPeace_camp _ x hrun s m hs hm hdone 1 fun _ => false)

end Slam.Game
