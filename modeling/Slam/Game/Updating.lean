import Slam.Game.Preparing

/-!
# What an update leaves

An update that finds the match of the scene done ends it, if everybody in it has entered; then each ally is back with
the pack of the copy, which has taken the hit points of the match (`Ended`). Otherwise it raises, and so will the next
one (`World.Locked`). A scene that has lost its members is closed, with its match, which cannot have been started.

`wp_luaEntryUpdate` puts this together: after an update, whether it has returned or raised, the world is as steady
as before.
-/

namespace Slam.Game

open Raising Track

variable {env : Env} {act : Act → Run Unit} {fuel depth : ℕ}

/-- The match `m` of the world `w` has been ended: its allies are back with the pack that they had before, which has
taken the hit points. -/
structure Ended (before : ℤ → Pack) (m : Match) (w w' : World) : Prop where
  sceneMatch : w'.sceneMatch = none
  backup : ∀ e ∈ m.entities, (w.entityAt e).side = .allies → (w'.entityAt e).backup = none
  pack : ∀ e ∈ m.entities, (w.entityAt e).side = .allies → w'.pack e = (before e).receive (w.pack e)
  span : ∀ e ∈ m.entities, (w.entityAt e).side = .allies → (w'.pack e).span = .copy
  hp : ∀ e ∈ m.entities, (w.entityAt e).side = .allies → 0 ≤ (w'.pack e).hp ∧ (w'.pack e).hp ≤ (w'.pack e).maxhp

/-- The match of the scene can be ended: everybody in it has entered, or the scene is closed anyway. -/
def World.Endable (w : World) (s : Scene) (m : Match) : Prop :=
  s.members = [] ∨ ∀ e ∈ m.entities, (w.entityAt e).backup ≠ none

/-! ### Nobody has a turn -/

section Waiting

variable {w : World} {m : Match}

theorem wp_monsterUpdate_waiting (hm : w.sceneMatch = some m) (hwaiting : m.roundEntityid = none) (ready : ℤ → Bool)
    (e : ℤ) : wp (monsterUpdate env act fuel ready e) (fun _ w' => w' = w) (fun _ w' => w' = w) w := by
  rw [monsterUpdate, wp_bind, wp_get]
  simp only [hm]
  rw [wp_ite]
  refine ⟨fun _ => rfl, fun _ => ?_⟩
  rw [wp_ite]
  refine ⟨fun _ => rfl, fun hturn => ?_⟩
  rw [hwaiting] at hturn
  exact absurd (Option.some_ne_none e).symm hturn

theorem wp_matchUpdate_waiting (hm : w.sceneMatch = some m) (hwaiting : m.roundEntityid = none) (ready : ℤ → Bool) :
    wp (matchUpdate env act fuel ready) (fun _ w' => w' = w) (fun _ w' => w' = w) w := by
  rw [matchUpdate, wp_bind, wp_getMatch]
  refine ⟨fun m' _ => ?_, fun _ => rfl⟩
  rw [wp_bind, wp_assertion]
  refine ⟨fun _ => ?_, fun _ => rfl⟩
  refine wp_forM (fun e _ u hu => ?_) rfl
  rw [wp_bind, wp_get, wp_ite, hu]
  exact ⟨fun _ => wp_monsterUpdate_waiting hm hwaiting ready e, fun _ => rfl⟩

end Waiting

/-! ### Leaving a scene as it should be -/

namespace World

variable {w w' u : World} {s : Scene} {m : Match} {e : ℤ} {before : ℤ → Pack}

/-- Nobody is in a match that is not there. -/
theorem Steady.out (h : w.Steady depth before) (hnone : w.sceneMatch = none) (e : ℤ) :
    (w.entityAt e).backup = none := by
  by_contra hin
  obtain ⟨m, hm, -⟩ := h.alone e hin
  rw [hnone] at hm
  cases hm

/-- Those who have entered the match of a scene that is as it should be can leave it. -/
theorem Regular.leaves (h : w.Regular depth s) (hm : s.sceneMatch = some m) {e : ℤ} (he : e ∈ m.entities)
    (hin : (w.entityAt e).backup ≠ none) : w.Leaves depth e := by
  have hjoined := h.joined m hm
  obtain ⟨b, hb⟩ := Option.ne_none_iff_exists'.1 hin
  refine ⟨⟨b, hb, ?_⟩, (hjoined.entered e he hin).1, fun hside => (hjoined.mustered.monster e he hside).1⟩
  rw [← home_of_in hb]
  by_cases hside : (w.entityAt e).side = .allies
  · exact (h.ally e (hjoined.mustered.ally e he hside)).span
  · exact (hjoined.mustered.monster e he hside).2.1

/-- An ally of the roster is left alone when a match ends, or it comes back from it. -/
theorem Regular.released (h : w.Regular depth s) (hm : s.sceneMatch = some m) (hu : Released depth m w u) {e : ℤ}
    (he : e ∈ w.roster s) : u.entityAt e = w.entityAt e ∨ e ∈ m.entities ∧ u.entityAt e = w.returned e := by
  by_cases hmem : e ∈ m.entities
  · exact .inr ⟨hmem, hu.returned e hmem (h.ally e he).side⟩
  · refine .inl (hu.others e fun hin => ?_)
    obtain ⟨i, hi, hie⟩ := List.mem_flatMap.1 hin
    rw [party] at hie
    split_ifs at hie with hside
    · exact hmem (List.mem_singleton.1 hie ▸ hi)
    · obtain ⟨⟨hsound, -⟩, -, hafter⟩ := (h.joined m hm).mustered.monster i hi hside
      exact absurd (hafter e he) (not_lt.2 (hsound.of_mem_kin hie).1)

/-- Whoever was in the match of the scene is out of it. -/
theorem Steady.out_of_released (h : w.Steady depth before) (hmatch : w.sceneMatch = some m) (hu : Released depth m w u)
    (hcleared : Cleared s u w') (e : ℤ) : (w'.entityAt e).backup = none := by
  rw [hcleared.rest]
  refine hu.out e ?_
  by_cases hbackup : (w.entityAt e).backup = none
  · exact .inr hbackup
  · obtain ⟨m₁, hm₁, he⟩ := h.alone e hbackup
    obtain rfl : m = m₁ := Option.some.inj (hmatch.symm.trans hm₁)
    exact .inl he

theorem entityAt_of_released (hu : Released depth m w u) (hcleared : Cleared s u w') {e : ℤ} (he : e ∈ m.entities)
    (hside : (w.entityAt e).side = .allies) : w'.entityAt e = w.returned e := by
  rw [hcleared.rest]
  exact hu.returned e he hside

theorem pack_of_released (hu : Released depth m w u) (hcleared : Cleared s u w') {e : ℤ} (he : e ∈ m.entities)
    (hside : (w.entityAt e).side = .allies) : w'.pack e = (w.home e).receive (w.pack e) := by
  rw [World.pack, entityAt_of_released hu hcleared he hside]
  rfl

/-- An ally comes back from the match as an ally that may be called into one again. -/
theorem Ally.released (h : w.Ally e) (hu : Released depth m w u) (hcleared : Cleared s u w') (he : e ∈ m.entities)
    (hmaxhp : 0 ≤ (w.pack e).maxhp) (hout : (w'.entityAt e).backup = none) (hnext : w'.nextEntity = w.nextEntity) :
    w'.Ally e := by
  have hhome : w'.home e = (w.home e).receive (w.pack e) :=
    (home_of_out hout).trans (pack_of_released hu hcleared he h.side)
  refine ⟨?_, ?_, ?_, hnext ▸ h.lt⟩
  · rw [entityAt_of_released hu hcleared he h.side]
    exact h.side
  · rw [hhome]
    exact h.span
  · rw [hhome]
    exact hmaxhp

/-- **After the end of a match the allies are back.** -/
theorem Steady.ended (h : w.Steady depth before) (hs : w.scene = some s) (hregular : w.Regular depth s)
    (hbefore : ∀ e, w.home e = before e) (hm : s.sceneMatch = some m)
    (hin : ∀ e ∈ m.entities, (w.entityAt e).backup ≠ none) (hu : Released depth m w u) (hcleared : Cleared s u w') :
    Ended before m w w' := by
  have hjoined := hregular.joined m hm
  obtain ⟨s', hs', hnone, -⟩ := hcleared.scene
  refine ⟨(sceneMatch_of_scene hs').trans hnone, fun e _ _ => ?_, fun e he hside => ?_, fun e he hside => ?_,
    fun e he hside => ?_⟩
  · exact h.out_of_released ((sceneMatch_of_scene hs).trans hm) hu hcleared e
  · rw [pack_of_released hu hcleared he hside, hbefore e]
  · rw [pack_of_released hu hcleared he hside]
    exact (hregular.ally e (hjoined.mustered.ally e he hside)).span
  · rw [pack_of_released hu hcleared he hside]
    have hmaxhp : 0 ≤ (w.pack e).maxhp := (hjoined.entered e he (hin e he)).2 hside
    exact ⟨le_min (le_max_right _ _) hmaxhp, min_le_right _ _⟩

/-- **After the end of a match the scene is as it should be.** -/
theorem Steady.released (h : w.Steady depth before) (hs : w.scene = some s) (hregular : w.Regular depth s)
    (hm : s.sceneMatch = some m) (hin : ∀ e ∈ m.entities, (w.entityAt e).backup ≠ none) (hu : Released depth m w u)
    (hcleared : Cleared s u w') : w'.Steady depth (w'.since before) := by
  obtain ⟨s', hs', hnone, hmembers⟩ := hcleared.scene
  have hout := h.out_of_released ((sceneMatch_of_scene hs).trans hm) hu hcleared
  have hnext : w'.nextEntity = w.nextEntity := by
    rw [hcleared.rest]
    exact hu.nextEntity
  have hsame {e : ℤ} (he : u.entityAt e = w.entityAt e) : w'.entityAt e = w.entityAt e := by
    rw [hcleared.rest]
    exact he
  have hroster {e : ℤ} (he : e ∈ w'.roster s') : e ∈ w.roster s := by
    rcases List.mem_append.1 he with he | he
    · exact mem_roster_of_member (hmembers e he)
    · obtain ⟨i, hi, hie⟩ := List.mem_flatMap.1 he
      have hmember := mem_roster_of_member (w := w) (hmembers i hi)
      refine mem_roster_of_placeholder (hmembers i hi) ?_
      rcases hregular.released hm hu hmember with hi' | ⟨hmem, -⟩
      · rw [← home_congr (hsame hi')]
        exact hie
      · rw [home_of_out (hout i), pack_of_released hu hcleared hmem (hregular.ally i hmember).side] at hie
        exact hie
  refine next (fun e hin => absurd (hout e) hin) (fun _ => ?_) fun s₁ hs₁ => .inr ⟨⟨fun e he => ?_, fun m₁ hm₁ => ?_⟩,
    fun e hin => absurd (hout e) hin⟩
  · obtain ⟨hset, hcopy, hmaster⟩ := h.based (by rw [hs]; exact Option.some_ne_none s)
    rw [hcleared.rest]
    exact ⟨(congrArg World.copySet hu.rest :).trans hset, (congrArg World.copyMembers hu.rest :).symm ▸ hcopy,
      hu.entityMaster.symm ▸ hmaster⟩
  all_goals
    obtain rfl : s' = s₁ := Option.some.inj (hs'.symm.trans hs₁)
  · have hally := hregular.ally e (hroster he)
    rcases hregular.released hm hu (hroster he) with he' | ⟨hmem, -⟩
    · exact hally.congr (hsame he') hnext.ge
    · exact hally.released hu hcleared hmem (((hregular.joined m hm).entered e hmem (hin e hmem)).2 hally.side) (hout e) hnext
  · rw [hnone] at hm₁
    cases hm₁

/-- **A match that could not be ended is locked.** -/
theorem Steady.staysOut (h : w.Steady depth before) (hs : w.scene = some s) (hm : s.sceneMatch = some m)
    (hdone : m.isdone = true) (hevent : w.monsterEvent.isSome) (hmembers : s.members ≠ []) {e : ℤ} (he : e ∈ m.entities)
    (hout : (w.entityAt e).backup = none) (hu : StaysOut w u) : u.Steady depth (u.since before) := by
  have hmatch := (sceneMatch_of_scene hs).trans hm
  have hmatch' : u.sceneMatch = some m := (congrArg (fun o => o.bind Scene.sceneMatch) hu.scene :).trans hmatch
  refine next (fun i hin => ?_) (fun _ => ?_) fun s' hs' => .inl ⟨m, ?_, hdone, ?_, ?_, e, he, hu.out e hout⟩
  · obtain ⟨m₁, hm₁, hi⟩ := h.alone i fun hnone => hin (hu.out i hnone)
    obtain rfl : m = m₁ := Option.some.inj (hmatch.symm.trans hm₁)
    exact ⟨m, hmatch', hi⟩
  · obtain ⟨hset, hcopy, hmaster⟩ := h.based (by rw [hs]; exact Option.some_ne_none s)
    exact ⟨(congrArg World.copySet hu.frame :).trans hset, (congrArg World.copyMembers hu.frame :).symm ▸ hcopy,
      (congrArg World.entityMaster hu.frame :).symm ▸ hmaster⟩
  all_goals
    obtain rfl : s = s' := Option.some.inj (hs.symm.trans (hu.scene.symm.trans hs'))
  · exact hm
  · rw [monsterEvent_congr (w := w) (by rw [hu.scene])]
    exact hevent
  · exact hmembers

end World

/-! ### A copy without a scene -/

/-- There is no scene, and nobody is in a match. -/
def World.Vacant (w : World) : Prop := w.scene = none ∧ ∀ e, (w.entityAt e).backup = none

section Vacant

variable {w : World}

theorem wp_sceneRemoveMember_vacant (h : w.Vacant) (e : ℤ) :
    wp (sceneRemoveMember e) (fun _ w' => w'.Vacant) (fun _ w' => w'.Vacant) w := by
  rw [sceneRemoveMember, wp_bind, wp_get]
  simp only [h.1]
  exact h

theorem wp_copyRemoveMember_vacant (h : w.Vacant) (e : ℤ) :
    wp (copyRemoveMember env depth e) (fun _ w' => w'.Vacant) (fun _ w' => w'.Vacant) w := by
  rw [copyRemoveMember, wp_bind, wp_get, wp_ite]
  refine ⟨fun _ => h, fun _ => ?_⟩
  rw [wp_bind]
  refine wp_mono (wp_sceneRemoveMember_vacant h e) (fun _ u hu => ?_) fun _ _ hu => hu
  have hstays {v : World} (hv : StaysOut u v) : v.Vacant := ⟨hv.scene.trans hu.1, fun i => hv.out i (hu.2 i)⟩
  rw [wp_bind]
  refine wp_mono (out_entityDestroy depth e u) (fun _ v hv => ?_) fun _ _ hv => hstays hv
  rw [wp_bind, wp_modify, wp_bind, wp_get, wp_ite]
  have hvacant : v.Vacant := hstays hv
  exact ⟨fun _ => hvacant, fun _ => hvacant⟩

theorem wp_copyDestructor_vacant (h : w.Vacant) :
    wp (copyDestructor env depth) (fun _ w' => w'.Vacant) (fun _ w' => w'.Vacant) w := by
  rw [copyDestructor, wp_bind, wp_get, wp_bind]
  refine wp_mono (wp_forM (fun e _ u hu => wp_copyRemoveMember_vacant hu e) h) (fun _ u hu => ?_) fun _ _ hu => hu
  rw [sceneDestructor, wp_bind, wp_get]
  simp only [hu.1]
  exact hu

end Vacant

/-! ### The update -/

section Update

variable {w : World} {s : Scene} {m : Match} {before : ℤ → Pack} {ready : ℤ → Bool}

/-- An update that does not find a match that is done. -/
theorem wp_matchUpdate_steady (h : w.Steady depth before) :
    wp (matchUpdate env (perform env fuel) fuel ready) (fun _ w' => w'.Steady depth (w'.since before))
      (fun _ w' => w'.Steady depth (w'.since before)) w := by
  by_cases hwaiting : ∃ m, w.sceneMatch = some m ∧ m.roundEntityid = none
  · obtain ⟨m, hm, hturn⟩ := hwaiting
    refine wp_mono (wp_matchUpdate_waiting hm hturn ready) ?_ ?_
    · rintro _ _ rfl
      exact h.same
    · rintro _ _ rfl
      exact h.same
  · have hunderway : wp (matchUpdate env (perform env fuel) fuel ready) (fun _ w' => Underway w w') (fun _ w' => Underway w w') w :=
      underway_of_logic (follows_matchUpdate (script_follows_true env fuel) ready) w
    have hgo {w' : World} (hw' : Underway w w') : w'.Steady depth (w'.since before) :=
      h.underway hw' fun m _ hm _ _ hturn => absurd ⟨m, hm, hturn⟩ hwaiting
    exact wp_mono hunderway (fun _ _ => hgo) fun _ _ => hgo

/-- **An update of a match that is done** ends it, if it can be ended, and raises otherwise. -/
theorem wp_endMatch_steady (h : w.Steady depth before) (hs : w.scene = some s) (hmembers : s.members ≠ [])
    (hm : s.sceneMatch = some m) (hdone : m.isdone = true) :
    wp (endMatch env depth) (fun _ w' => w'.Steady depth (w'.since before) ∧ w.Endable s m ∧ Ended before m w w')
      (fun _ w' => w'.Steady depth (w'.since before) ∧ ¬ w.Endable s m) w := by
  have hmatch := (World.sceneMatch_of_scene hs).trans hm
  have hlocked {e : ℤ} (he : e ∈ m.entities) (hout : (w.entityAt e).backup = none) (hevent : w.monsterEvent.isSome) :
      wp (endMatch env depth) (fun _ w' => w'.Steady depth (w'.since before) ∧ w.Endable s m ∧ Ended before m w w')
        (fun _ w' => w'.Steady depth (w'.since before) ∧ ¬ w.Endable s m) w := by
    refine wp_mono (wp_endMatch_of_out hmatch hevent he hout) (fun _ _ hfalse => hfalse.elim) fun _ u hu => ?_
    refine ⟨h.staysOut hs hm hdone hevent hmembers he hout hu, fun hendable => ?_⟩
    rcases hendable with hnone | hin
    · exact hmembers hnone
    · exact hin e he hout
  rcases h.state s hs with ⟨m₁, hm₁, -, hevent, -, e, he, hout⟩ | ⟨hregular, hbefore⟩
  · obtain rfl : m = m₁ := Option.some.inj (hm.symm.trans hm₁)
    exact hlocked he hout hevent
  · have hjoined := hregular.joined m hm
    by_cases hin : ∀ e ∈ m.entities, (w.entityAt e).backup ≠ none
    · have hmaster := (h.based (by rw [hs]; exact Option.some_ne_none s)).2.2
      refine wp_mono (wp_endMatch hs hm hjoined.event hdone (hjoined.told hdone)
        (fun e he => hregular.leaves hm he (hin e he)) hjoined.mustered.nodup hmaster) ?_ fun _ _ hfalse => hfalse.elim
      rintro _ w' ⟨u, hu, hcleared⟩
      exact ⟨h.released hs hregular hm hin hu hcleared, .inr hin, h.ended hs hregular hbefore hm hin hu hcleared⟩
    · push Not at hin
      obtain ⟨e, he, hout⟩ := hin
      exact hlocked he hout hjoined.event

/-- A scene without members is closed. There were no allies in its match. -/
theorem wp_sceneDestructor_steady (h : w.Steady depth before) (hs : w.scene = some s) (hnone : s.members = []) :
    wp (sceneDestructor env) (fun _ w' => w'.Steady depth (w'.since before) ∧ ∀ m, s.sceneMatch = some m →
      Ended before m w w') (fun _ _ => False) w := by
  have hregular : w.Regular depth s := by
    rcases h.state s hs with ⟨m, -, hlocked⟩ | ⟨hregular, -⟩
    · exact absurd hnone hlocked.members
    · exact hregular
  have hout (e : ℤ) : (w.entityAt e).backup = none := by
    by_contra hin
    obtain ⟨m, hm, he⟩ := h.alone e hin
    have hjoined := hregular.joined m ((World.sceneMatch_of_scene hs).symm.trans hm)
    exact hin ((hjoined.idle (hjoined.manned hnone)).2 e he)
  have hnobody {m : Match} (hm : s.sceneMatch = some m) {e : ℤ} (he : e ∈ m.entities)
      (hside : (w.entityAt e).side = .allies) : False := by
    have hmem := (hregular.joined m hm).mustered.ally e he hside
    rw [World.roster, hnone] at hmem
    cases hmem
  have hempty : env.pairs s.members = [] := by
    have hperm := env.pairs_perm s.members
    rw [hnone] at hperm ⊢
    exact hperm.eq_nil
  rw [sceneDestructor, wp_bind, wp_get]
  simp only [hs]
  rw [hempty, wp_bind]
  show (World.Steady depth _ { w with scene := none }) ∧ _
  refine ⟨.closed hout rfl, fun m hm => ⟨rfl, ?_, ?_, ?_, ?_⟩⟩
  · exact fun e he hside => (hnobody hm he hside).elim
  · exact fun e he hside => (hnobody hm he hside).elim
  · exact fun e he hside => (hnobody hm he hside).elim
  · exact fun e he hside => (hnobody hm he hside).elim

/-- A scene with members is updated. -/
theorem wp_sceneUpdate_steady (h : w.Steady depth before) (hs : w.scene = some s) (hmembers : s.members ≠ []) :
    wp (sceneUpdate env (perform env fuel) fuel depth ready)
      (fun _ w' => w'.Steady depth (w'.since before) ∧ ∀ m, s.sceneMatch = some m → m.isdone = true →
        w.Endable s m ∧ Ended before m w w')
      (fun _ w' => w'.Steady depth (w'.since before) ∧ ∀ m, s.sceneMatch = some m → m.isdone = true →
        ¬ w.Endable s m) w := by
  rw [sceneUpdate, wp_bind, wp_get, World.sceneMatch_of_scene hs]
  cases hm : s.sceneMatch with
  | none =>
    refine ⟨h.same, fun m hsome => ?_⟩
    cases hsome
  | some m =>
    show wp (if m.isdone then endMatch env depth else matchUpdate env (perform env fuel) fuel ready) _ _ w
    rw [wp_ite]
    refine ⟨fun hdone => ?_, fun hdone => ?_⟩
    · refine wp_mono (wp_endMatch_steady h hs hmembers hm hdone) ?_ ?_
      · rintro _ w' ⟨hw', hended⟩
        refine ⟨hw', fun m' hm' _ => ?_⟩
        cases hm'
        exact hended
      · rintro _ w' ⟨hw', hnot⟩
        refine ⟨hw', fun m' hm' _ => ?_⟩
        cases hm'
        exact hnot
    · have hopen (m' : Match) (hm' : some m = some m') (hdone' : m'.isdone = true) : False := by
        cases hm'
        exact hdone hdone'
      exact wp_mono (wp_matchUpdate_steady h) (fun _ _ hw' => ⟨hw', fun m' hm' hd => (hopen m' hm' hd).elim⟩)
        fun _ _ hw' => ⟨hw', fun m' hm' hd => (hopen m' hm' hd).elim⟩

/-- **What an update does between requests**: it leaves the world steady, and if the match of the scene is done then it
ends the match, or it raises, and which of them is decided by `World.Endable`. -/
theorem wp_luaEntryUpdate (h : w.Steady depth before) :
    wp (luaEntryUpdate env (perform env fuel) fuel depth ready)
      (fun _ w' => w'.Steady depth (w'.since before) ∧ ∀ s m, w.scene = some s → s.sceneMatch = some m →
        m.isdone = true → w.Endable s m ∧ Ended before m w w')
      (fun _ w' => w'.Steady depth (w'.since before) ∧ ∀ s m, w.scene = some s → s.sceneMatch = some m →
        m.isdone = true → ¬ w.Endable s m) w := by
  rw [luaEntryUpdate, inCopy, wp_bind, wp_get]
  cases hs : w.scene with
  | none =>
    have hvacant : w.Vacant := ⟨hs, h.out (by rw [World.sceneMatch, hs]; rfl)⟩
    have hgo {w' : World} (hw' : w'.Vacant) : w'.Steady depth (w'.since before) := .closed hw'.2 hw'.1
    rw [wp_ite]
    refine ⟨fun _ => ?_, fun _ => ⟨h.same, fun s _ hsome => by cases hsome⟩⟩
    rw [wp_bind, wp_get, wp_ite]
    refine ⟨fun _ => ?_, fun hnot => absurd ?_ hnot⟩
    · rw [wp_bind]
      refine wp_mono (wp_copyDestructor_vacant hvacant) (fun _ u hu => ?_) fun _ u hu =>
        ⟨hgo hu, fun s _ hsome => by cases hsome⟩
      rw [wp_modify]
      have hunset : World.Vacant { u with copySet := false } := hu
      exact ⟨hgo hunset, fun s _ hsome => by cases hsome⟩
    · simp [World.copyDone, hs]
  | some s =>
    obtain ⟨hset, hcopy, hmaster⟩ := h.based (by rw [hs]; exact Option.some_ne_none s)
    have hopen : w.copyDone = false := by
      obtain ⟨master, hmaster'⟩ := Option.isSome_iff_exists.1 hmaster
      simp [World.copyDone, hcopy, hmaster', hs]
    rw [hset, if_pos rfl, wp_bind, wp_get, wp_ite]
    refine ⟨fun hdone => absurd hdone (by rw [hopen]; decide), fun _ => ?_⟩
    rw [copyUpdate, wp_bind, wp_get]
    simp only [hs]
    rw [wp_ite]
    refine ⟨fun hnone => ?_, fun hmembers => ?_⟩
    · refine wp_mono (wp_sceneDestructor_steady h hs hnone) ?_ fun _ _ hfalse => hfalse.elim
      rintro _ w' ⟨hw', hended⟩
      refine ⟨hw', fun s' m hs' hm _ => ?_⟩
      cases hs'
      exact ⟨.inl hnone, hended m hm⟩
    · refine wp_mono (wp_sceneUpdate_steady h hs hmembers) ?_ ?_
      · rintro _ w' ⟨hw', hended⟩
        refine ⟨hw', fun s' m hs' => ?_⟩
        cases hs'
        exact hended m
      · rintro _ w' ⟨hw', hnot⟩
        refine ⟨hw', fun s' m hs' => ?_⟩
        cases hs'
        exact hnot m

end Update

end Slam.Game
