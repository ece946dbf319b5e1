import Slam.Game.Mustering

/-!
# Who is in a match

A match is made of the allies on the roster of the scene, its members and those in their placeholders, and of
monsters, which are made for it after all of them. `World.Mustered` says so, and that no entity is concerned twice
when they leave; `Scene:prepare_match` musters them one after the other (`wp_prepareMatch`).

`World.Steady` is what holds between the requests of a client. Either the scene is as it should be, and every
entity has the pack outside of matches that it had when it was last seen there, or its match is locked: it is done,
and an entity of it has not entered.
-/

namespace Slam.Game

open Raising Track

variable {env : Env} {depth : ℕ}

namespace World

/-- The members of a scene and those in their placeholders. -/
def roster (w : World) (s : Scene) : List ℤ :=
  s.members ++ s.members.flatMap fun e => (w.home e).placeholders.map Prod.snd

/-- An entity that may be called into a match again and again. -/
structure Ally (w : World) (e : ℤ) : Prop where
  side : (w.entityAt e).side = .allies
  span : (w.home e).span = .copy
  maxhp : 0 ≤ (w.home e).maxhp
  lt : e < w.nextEntity

/-- The entities of a match: allies of the roster, and monsters that have been made after them. -/
structure Mustered (w : World) (depth : ℕ) (s : Scene) (l : List ℤ) : Prop where
  nodup : (l.flatMap (w.party depth)).Nodup
  ally : ∀ e ∈ l, (w.entityAt e).side = .allies → e ∈ w.roster s
  monster : ∀ e ∈ l, (w.entityAt e).side ≠ .allies →
    w.Discharged depth e ∧ (w.home e).span = .copy ∧ ∀ r ∈ w.roster s, r < e

/-- The match of the scene: before it is started nobody has entered it and nobody has a turn. -/
structure Joined (w : World) (depth : ℕ) (s : Scene) (m : Match) : Prop where
  event : w.monsterEvent.isSome
  told : m.isdone = true → m.sideVictory ≠ none
  idle : m.isstart = false → m.roundEntityid = none ∧ ∀ e ∈ m.entities, (w.entityAt e).backup = none
  mustered : w.Mustered depth s m.entities
  entered : ∀ e ∈ m.entities, (w.entityAt e).backup ≠ none →
    (w.pack e).span = .match ∧ ((w.entityAt e).side = .allies → 0 ≤ (w.pack e).maxhp)
  manned : s.members = [] → m.isstart = false

/-- The scene is as it should be. -/
structure Regular (w : World) (depth : ℕ) (s : Scene) : Prop where
  ally : ∀ e ∈ w.roster s, w.Ally e
  joined : ∀ m, s.sceneMatch = some m → w.Joined depth s m

/-- The match is done, and not everybody in it has entered it, so that it cannot be ended. -/
structure Locked (w : World) (s : Scene) (m : Match) : Prop where
  isdone : m.isdone = true
  event : w.monsterEvent.isSome
  members : s.members ≠ []
  out : ∃ e ∈ m.entities, (w.entityAt e).backup = none

/-- What holds between the requests of a client. `before` is the pack that each entity had when it was last seen
outside of a match. -/
structure Steady (depth : ℕ) (before : ℤ → Pack) (w : World) : Prop where
  alone : ∀ e, (w.entityAt e).backup ≠ none → ∃ m, w.sceneMatch = some m ∧ e ∈ m.entities
  based : w.scene ≠ none → w.copySet = true ∧ w.copyMembers ≠ [] ∧ w.entityMaster.isSome
  state : ∀ s, w.scene = some s → (∃ m, s.sceneMatch = some m ∧ w.Locked s m) ∨
    w.Regular depth s ∧ ∀ e, w.home e = before e

/-- The packs outside of matches, as they are seen now. -/
def since (before : ℤ → Pack) (w : World) (e : ℤ) : Pack :=
  if (w.entityAt e).backup = none then w.pack e else before e

end World

/-! ### Small facts -/

theorem nodup_of_nodup_flatMap {l : List ℤ} {f : ℤ → List ℤ} (h : (l.flatMap f).Nodup) (hmem : ∀ e ∈ l, e ∈ f e) :
    l.Nodup := by
  induction l with
  | nil => exact List.nodup_nil
  | cons e l ih =>
    rw [List.flatMap_cons, List.nodup_append] at h
    refine List.nodup_cons.2 ⟨fun he => ?_, ih h.2.1 fun i hi => hmem i (List.mem_cons_of_mem _ hi)⟩
    exact h.2.2 e (hmem e (List.mem_cons_self ..)) e
      (List.mem_flatMap.2 ⟨e, he, hmem e (List.mem_cons_of_mem _ he)⟩) rfl

/-- Two entries of a list whose parts have no element twice are the same if they share an element. -/
theorem eq_of_mem_flatMap {l : List ℤ} {f : ℤ → List ℤ} (h : (l.flatMap f).Nodup) {e i t : ℤ} (he : e ∈ l) (hi : i ∈ l)
    (het : t ∈ f e) (hit : t ∈ f i) : e = i := by
  induction l with
  | nil => cases he
  | cons x l ih =>
    rw [List.flatMap_cons, List.nodup_append] at h
    rcases List.mem_cons.1 he with rfl | he'
    · rcases List.mem_cons.1 hi with rfl | hi'
      · rfl
      · exact absurd rfl (h.2.2 t het t (List.mem_flatMap.2 ⟨i, hi', hit⟩))
    · rcases List.mem_cons.1 hi with rfl | hi'
      · exact absurd rfl (h.2.2 t hit t (List.mem_flatMap.2 ⟨e, he', het⟩))
      · exact ih h.2.1 he' hi'

namespace World

variable {w w' : World} {s s' : Scene} {e : ℤ}

theorem mem_roster_of_member (he : e ∈ s.members) : e ∈ w.roster s := List.mem_append_left _ he

theorem mem_roster_of_placeholder {t : ℤ} (he : e ∈ s.members) (ht : t ∈ (w.home e).placeholders.map Prod.snd) :
    t ∈ w.roster s := List.mem_append_right _ (List.mem_flatMap.2 ⟨e, he, ht⟩)

/-- The roster only looks at the placeholders of the members. -/
theorem roster_congr (hmembers : s'.members = s.members)
    (hplaceholders : ∀ e ∈ s.members, (w'.home e).placeholders = (w.home e).placeholders) : w'.roster s' = w.roster s := by
  rw [roster, roster, hmembers, List.flatMap_congr fun e he => by rw [hplaceholders e he]]

theorem Ally.congr (h : w.Ally e) (hsame : w'.entityAt e = w.entityAt e) (hnext : w.nextEntity ≤ w'.nextEntity) :
    w'.Ally e := by
  refine ⟨?_, ?_, ?_, h.lt.trans_le hnext⟩
  · rw [hsame]
    exact h.side
  · rw [home_congr hsame]
    exact h.span
  · rw [home_congr hsame]
    exact h.maxhp

/-- The event stays that has been triggered. -/
theorem monsterEvent_congr (h : w'.scene.bind Scene.triggerEvent = w.scene.bind Scene.triggerEvent) :
    w'.monsterEvent = w.monsterEvent := by
  rw [monsterEvent, h, monsterEvent]

theorem sceneMatch_of_scene (hs : w.scene = some s) : w.sceneMatch = s.sceneMatch := by
  rw [sceneMatch, hs]
  rfl

namespace Mustered

variable {l : List ℤ}

theorem mem_party (h : w.Mustered depth s l) (he : e ∈ l) : e ∈ w.party depth e := by
  rw [party]
  split_ifs with hside
  · exact List.mem_singleton_self e
  · exact (h.monster e he hside).1.sound.mem_kin

theorem nodup_list (h : w.Mustered depth s l) : l.Nodup := nodup_of_nodup_flatMap h.nodup fun _ he => h.mem_party he

/-- Changes of packs apart from their span and their line-up, and entities of the list that enter, leave it as it is. -/
theorem congr (h : w.Mustered depth s l) (hside : ∀ e, (w'.entityAt e).side = (w.entityAt e).side)
    (hfreed : ∀ e, (w'.entityAt e).freed = (w.entityAt e).freed) (hnext : w'.nextEntity = w.nextEntity)
    (hhome : ∀ e, (w'.home e).fixed = (w.home e).fixed) (hmembers : s'.members = s.members)
    (hout : ∀ e, e ∉ l → (w.entityAt e).backup = none → (w'.entityAt e).backup = none) : w'.Mustered depth s' l := by
  have hdependents (t : ℤ) : (w'.atHome.pack t).dependents t = (w.atHome.pack t).dependents t := by
    show (w'.home t).dependents t = (w.home t).dependents t
    rw [Pack.dependents, show (w'.home t).puppets = (w.home t).puppets from (congrArg Pack.puppets (hhome t) :),
      show (w'.home t).placeholders = (w.home t).placeholders from (congrArg Pack.placeholders (hhome t) :), Pack.dependents]
  have hroster : w'.roster s' = w.roster s :=
    roster_congr hmembers fun e _ => (congrArg Pack.placeholders (hhome e) :)
  have hown {e : ℤ} (he : e ∈ l) (hnot : (w.entityAt e).side ≠ .allies) :
      w'.Discharged depth e ∧ w'.atHome.kin depth e = w.atHome.kin depth e := by
    obtain ⟨⟨hsound, hin⟩, -, -⟩ := h.monster e he hnot
    obtain ⟨hsound', hkin⟩ := @World.Sound.congr w.atHome w'.atHome _ _ hsound (le_of_eq hnext.symm) (fun t _ => hfreed t)
      fun t _ => hdependents t
    refine ⟨⟨hsound', fun t ht hne => ?_⟩, hkin⟩
    rw [hkin] at ht
    -- A puppet of a monster is not in the list, as it would be concerned twice.
    refine hout t (fun htl => hne ?_) (hin t ht hne)
    refine (eq_of_mem_flatMap h.nodup he htl (t := t) ?_ (h.mem_party htl)).symm
    rw [party, if_neg hnot]
    exact ht
  have hparty {e : ℤ} (he : e ∈ l) : w'.party depth e = w.party depth e := by
    rw [party, party, hside e]
    split_ifs with hnot
    · rfl
    · exact (hown he hnot).2
  refine ⟨?_, fun e he hallies => ?_, fun e he hnot => ?_⟩
  · rw [List.flatMap_congr fun e he => hparty he]
    exact h.nodup
  · rw [hroster]
    exact h.ally e he (by rw [← hside e]; exact hallies)
  · have hnot' : (w.entityAt e).side ≠ .allies := by
      rw [← hside e]
      exact hnot
    refine ⟨(hown he hnot').1, ?_, ?_⟩
    · rw [show (w'.home e).span = (w.home e).span from (congrArg Pack.span (hhome e) :)]
      exact (h.monster e he hnot').2.1
    · rw [hroster]
      exact (h.monster e he hnot').2.2

/-- One more entity is mustered, whom no other one of the list concerns. -/
theorem concat (h : w.Mustered depth s l) (hparty : (w.party depth e).Nodup)
    (hapart : ∀ i ∈ l, ∀ t ∈ w.party depth i, t ∉ w.party depth e)
    (hally : (w.entityAt e).side = .allies → e ∈ w.roster s)
    (hmonster : (w.entityAt e).side ≠ .allies → w.Discharged depth e ∧ (w.home e).span = .copy ∧ ∀ r ∈ w.roster s, r < e) :
    w.Mustered depth s (l ++ [e]) := by
  have hcases {i : ℤ} (hi : i ∈ l ++ [e]) : i ∈ l ∨ i = e := by simpa using hi
  refine ⟨?_, fun i hi => ?_, fun i hi => ?_⟩
  · rw [List.flatMap_append, List.nodup_append]
    refine ⟨h.nodup, by simpa using hparty, fun t ht t' ht' heq => ?_⟩
    obtain ⟨i, hi, hit⟩ := List.mem_flatMap.1 ht
    exact hapart i hi t hit (by simpa [heq] using ht')
  · rcases hcases hi with hi | rfl
    · exact h.ally i hi
    · exact hally
  · rcases hcases hi with hi | rfl
    · exact h.monster i hi
    · exact hmonster

end Mustered

end World

/-! ### What the requests of a match keep -/

namespace Underway

variable {w w' : World}

/-- A pack that is put aside stays as it is, and one that is not keeps its span and its line-up. -/
theorem home_of_in (h : Underway w w') {e : ℤ} (hin : (w.entityAt e).backup ≠ none) : w'.home e = w.home e := by
  obtain ⟨b, hb⟩ := Option.ne_none_iff_exists'.1 hin
  rw [World.home_of_in hb, World.home_of_in ((h.backup e).trans hb)]

theorem home_fixed (h : Underway w w') (e : ℤ) : (w'.home e).fixed = (w.home e).fixed := by
  by_cases hout : (w.entityAt e).backup = none
  · rw [World.home_of_out hout, World.home_of_out ((h.backup e).trans hout)]
    exact h.fixed e
  · rw [h.home_of_in hout]

theorem home_maxhp (h : Underway w w') (e : ℤ) (hm : 0 ≤ (w.home e).maxhp) : 0 ≤ (w'.home e).maxhp := by
  by_cases hout : (w.entityAt e).backup = none
  · rw [World.home_of_out ((h.backup e).trans hout)]
    rw [World.home_of_out hout] at hm
    exact h.maxhp e hm
  · rw [h.home_of_in hout]
    exact hm

theorem ally (h : Underway w w') {e : ℤ} (he : w.Ally e) : w'.Ally e where
  side := (h.side e).trans he.side
  span := (congrArg Pack.span (h.home_fixed e) :).trans he.span
  maxhp := h.home_maxhp e he.maxhp
  lt := h.nextEntity ▸ he.lt

theorem mustered (h : Underway w w') {depth : ℕ} {s s' : Scene} {l : List ℤ} (hmembers : s'.members = s.members)
    (hmustered : w.Mustered depth s l) : w'.Mustered depth s' l :=
  hmustered.congr h.side h.freed h.nextEntity h.home_fixed hmembers fun e _ hout => (h.backup e).trans hout

end Underway

namespace World.Steady

variable {w w' : World} {before : ℤ → Pack}

/-- What holds after a request. -/
theorem next (halone : ∀ e, (w'.entityAt e).backup ≠ none → ∃ m, w'.sceneMatch = some m ∧ e ∈ m.entities)
    (hbased : w'.scene ≠ none → w'.copySet = true ∧ w'.copyMembers ≠ [] ∧ w'.entityMaster.isSome)
    (hstate : ∀ s, w'.scene = some s → (∃ m, s.sceneMatch = some m ∧ w'.Locked s m) ∨
      w'.Regular depth s ∧ ∀ e, (w'.entityAt e).backup ≠ none → w'.home e = before e) :
    w'.Steady depth (w'.since before) := by
  refine ⟨halone, hbased, fun s hs => (hstate s hs).imp_right fun h => ⟨h.1, fun e => ?_⟩⟩
  rw [World.since]
  split_ifs with hout
  · exact home_of_out hout
  · exact h.2 e hout

/-- Nothing has happened. -/
theorem same (h : w.Steady depth before) : w.Steady depth (w.since before) :=
  next h.alone h.based fun s hs => (h.state s hs).imp_right fun hregular => ⟨hregular.1, fun e _ => hregular.2 e⟩

/-- A scene that is closed leaves nobody in a match. -/
theorem closed (halone : ∀ e, (w'.entityAt e).backup = none) (hscene : w'.scene = none) :
    w'.Steady depth (w'.since before) :=
  next (fun e hin => absurd (halone e) hin) (fun hsome => absurd hscene hsome) fun s hs => by rw [hscene] at hs; cases hs

/-- What goes on in a match keeps the order, if nobody gets a turn before the match is started. -/
theorem underway (h : w.Steady depth before) (hunderway : Underway w w')
    (hidle : ∀ m m', w.sceneMatch = some m → w'.sceneMatch = some m' → m.isstart = false → m.roundEntityid = none →
      m'.roundEntityid = none) : w'.Steady depth (w'.since before) := by
  refine next (fun e hin => ?_) (fun hsome => ?_) fun s' hs' => ?_
  · rw [hunderway.backup e] at hin
    obtain ⟨m, hm, he⟩ := h.alone e hin
    obtain ⟨m', hm', honward⟩ := hunderway.onward m hm
    exact ⟨m', hm', honward.entities ▸ he⟩
  · obtain ⟨hset, hmembers, hmaster⟩ := h.based fun hnone => hsome (hunderway.scene_eq_none hnone)
    exact ⟨hunderway.copySet.trans hset, hunderway.copyMembers ▸ hmembers, hunderway.entityMaster ▸ hmaster⟩
  obtain ⟨s, hs, hmembers, hevent⟩ := hunderway.scene hs'
  have hmatch := sceneMatch_of_scene hs
  have hmatch' := sceneMatch_of_scene hs'
  have hmonster : w'.monsterEvent = w.monsterEvent := monsterEvent_congr (by rw [hs, hs']; exact hevent)
  rcases h.state s hs with ⟨m, hm, hlocked⟩ | ⟨hregular, hbefore⟩
  · obtain ⟨m', hm', honward⟩ := hunderway.onward m (hmatch.trans hm)
    obtain ⟨e, he, hout⟩ := hlocked.out
    refine .inl ⟨m', hmatch'.symm.trans hm', (honward.decided hlocked.isdone).1, hmonster ▸ hlocked.event,
      hmembers ▸ hlocked.members, e, honward.entities ▸ he, (hunderway.backup e).trans hout⟩
  · have hroster : w'.roster s' = w.roster s :=
      roster_congr hmembers fun e _ => (congrArg Pack.placeholders (hunderway.home_fixed e) :)
    refine .inr ⟨⟨fun e he => hunderway.ally (hregular.ally e (hroster ▸ he)), fun m' hm' => ?_⟩, fun e hin => ?_⟩
    · cases hm : w.sceneMatch with
      | none =>
        rw [← hmatch', hunderway.idle hm] at hm'
        cases hm'
      | some m =>
        obtain ⟨m'', hm'', honward⟩ := hunderway.onward m hm
        obtain rfl : m' = m'' := Option.some.inj (hm'.symm.trans (hmatch'.symm.trans hm''))
        have hjoined := hregular.joined m (hmatch.symm.trans hm)
        refine ⟨hmonster ▸ hjoined.event, honward.told hjoined.told, fun hstart => ?_, ?_, fun e he hin => ?_,
          fun hnone => ?_⟩
        · have hnot := honward.isstart.symm.trans hstart
          obtain ⟨hturn, hout⟩ := hjoined.idle hnot
          exact ⟨hidle m m' hm hm'' hnot hturn,
            fun e he => (hunderway.backup e).trans (hout e (honward.entities ▸ he))⟩
        · rw [honward.entities]
          exact hunderway.mustered hmembers hjoined.mustered
        · rw [hunderway.backup e] at hin
          obtain ⟨hspan, hmaxhp⟩ := hjoined.entered e (honward.entities ▸ he) hin
          refine ⟨(hunderway.span e).trans hspan, fun hside => hunderway.maxhp e (hmaxhp ?_)⟩
          rw [← hunderway.side e]
          exact hside
        · exact honward.isstart.trans (hjoined.manned (hmembers ▸ hnone))
    · rw [hunderway.backup e] at hin
      rw [hunderway.home_of_in hin]
      exact hbefore e

end World.Steady

/-! ### What the start keeps -/

namespace Entering

variable {w u : World} {m : Match} {l : List ℤ}

theorem side (h : Entering w m l u) (e : ℤ) : (u.entityAt e).side = (w.entityAt e).side := by
  by_cases he : e ∈ l
  · exact (congrArg Entity.side (h.standing e he) :)
  · rw [h.others e he]

theorem freed (h : Entering w m l u) (e : ℤ) : (u.entityAt e).freed = (w.entityAt e).freed := by
  by_cases he : e ∈ l
  · exact (congrArg Entity.freed (h.standing e he) :)
  · rw [h.others e he]

theorem backup (h : Entering w m l u) {e : ℤ} (he : e ∈ l) : (u.entityAt e).backup = some (w.pack e) :=
  (congrArg Entity.backup (h.standing e he) :)

theorem nextEntity (h : Entering w m l u) : u.nextEntity = w.nextEntity := (congrArg World.nextEntity h.surroundings :)

/-- Nobody gets another pack outside of matches. -/
theorem home (h : Entering w m l u) (hout : ∀ e ∈ l, (w.entityAt e).backup = none) (e : ℤ) : u.home e = w.home e := by
  by_cases he : e ∈ l
  · rw [World.home_of_in (h.backup he), World.home_of_out (hout e he)]
  · exact World.home_congr (h.others e he)

end Entering

namespace World.Steady

variable {w : World} {before : ℤ → Pack}

/-- Entities of a match that has not been started enter it. -/
theorem entering (h : w.Steady depth before) {s : Scene} {m : Match} {l : List ℤ} {u : World} (hs : w.scene = some s)
    (hregular : w.Regular depth s) (hbefore : ∀ e, w.home e = before e) (hm : s.sceneMatch = some m)
    (hnot : m.isstart = false) (hl : ∀ e ∈ l, e ∈ m.entities) (hliving : w.Living m .allies)
    (hentering : Entering w.begun { m with isstart := true } l u) : u.Steady depth before := by
  have hjoined := hregular.joined m hm
  have hmatch := (sceneMatch_of_scene hs).trans hm
  have hout : ∀ e ∈ l, (w.begun.entityAt e).backup = none := fun e he => (hjoined.idle hnot).2 e (hl e he)
  have hhome : ∀ e, u.home e = w.home e := hentering.home hout
  have hsurroundings : u.surroundings = w.surroundings := hentering.surroundings.trans (w.surroundings_mapMatch _)
  obtain ⟨m', hm', honward, hturn⟩ := hentering.onward
  have hothers {e : ℤ} (he : e ∉ l) : u.entityAt e = w.entityAt e := hentering.others e he
  have hside (e : ℤ) : (u.entityAt e).side = (w.entityAt e).side := hentering.side e
  have hin {e : ℤ} (he : (u.entityAt e).backup ≠ none) : e ∈ l := by
    by_contra hel
    rw [hothers hel] at he
    obtain ⟨m₁, hm₁, hmem⟩ := h.alone e he
    obtain rfl : m = m₁ := Option.some.inj (hmatch.symm.trans hm₁)
    exact he ((hjoined.idle hnot).2 e hmem)
  refine ⟨fun e he => ⟨m', hm', honward.entities ▸ hl e (hin he)⟩, fun _ => ?_, fun s' hs' => .inr ⟨⟨fun e he => ?_,
    fun m'' hm'' => ?_⟩, fun e => (hhome e).trans (hbefore e)⟩⟩
  · obtain ⟨hset, hmembers, hmaster⟩ := h.based (by rw [hs]; exact Option.some_ne_none s)
    exact ⟨(congrArg World.copySet hsurroundings :).trans hset, (congrArg World.copyMembers hsurroundings :).symm ▸ hmembers,
      (congrArg World.entityMaster hsurroundings :).symm ▸ hmaster⟩
  all_goals
    obtain ⟨s₁, hs₁, hmembers, hevent⟩ := World.scene_of_surroundings hsurroundings hs'
    obtain rfl : s = s₁ := Option.some.inj (hs.symm.trans hs₁)
    have hroster : u.roster s' = w.roster s := roster_congr hmembers fun e _ => by rw [hhome e]
  · obtain ⟨haside, hspan, hmaxhp, hlt⟩ := hregular.ally e (hroster ▸ he)
    exact ⟨(hside e).trans haside, by rw [hhome e]; exact hspan, by rw [hhome e]; exact hmaxhp,
      hentering.nextEntity.symm ▸ hlt⟩
  · obtain rfl : m' = m'' := Option.some.inj (hm'.symm.trans ((sceneMatch_of_scene hs').trans hm''))
    have hentities : m'.entities = m.entities := honward.entities
    refine ⟨?_, honward.told hjoined.told, fun hno => ?_, ?_, fun e he hbackup => ?_, fun hnone => ?_⟩
    · rw [monsterEvent_congr (w := w) (by rw [hs, hs']; exact hevent)]
      exact hjoined.event
    · rw [honward.isstart] at hno
      cases hno
    · rw [hentities]
      exact hjoined.mustered.congr hside hentering.freed hentering.nextEntity (fun e => by rw [hhome e]) hmembers
        fun e he hout => by rw [hothers fun hel => he (hl e hel)]; exact hout
    · have hel := hin hbackup
      refine ⟨hentering.span e hel, fun hallies => hentering.maxhp e hel ?_⟩
      -- The pack that an ally brings is that of the copy.
      have hally := hregular.ally e (hjoined.mustered.ally e (hl e hel) ((hside e).symm.trans hallies))
      have hmaxhp := hally.maxhp
      rw [home_of_out ((hjoined.idle hnot).2 e (hl e hel))] at hmaxhp
      exact hmaxhp
    · obtain ⟨e, he, hallies, -⟩ := hliving
      have hroster := hjoined.mustered.ally e he hallies
      rw [roster, ← hmembers, hnone] at hroster
      cases hroster

end World.Steady

end Slam.Game
