import Slam.Game.Joined

/-!
# Preparing a match

`Scene:prepare_match` adds the entities of the roster and makes the monsters of the event, one after the other.
Entities are only made: nobody enters a match, and all that was there before is as it was. What has been mustered
when it raises stays a match, which can be started, or aborted, like any other.
-/

namespace Slam.Game

open Raising Track

variable {env : Env} {depth : ℕ}

/-! ### Nobody enters -/

/-- Entities stay, and so does what is around the heap. -/
theorem out_modify {f : World → World} (hentity : ∀ w, (f w).entityAt = w.entityAt)
    (hframe : ∀ w, ({ (f w).frame with nextEntity := 0 } : World) = { w.frame with nextEntity := 0 }) :
    outTrack.Follows (modify f : Run PUnit) :=
  follows_modify fun w => ⟨hframe w, fun e he => by rw [hentity]; exact he⟩

theorem out_foldlM {α β : Type} {f : α → β → Run α} (xs : List β) (h : ∀ a, ∀ x ∈ xs, outTrack.Follows (f a x)) (a : α) :
    outTrack.Follows (xs.foldlM f a) := by
  induction xs generalizing a with
  | nil => exact follows_pure a
  | cons x xs ih =>
    rw [List.foldlM_cons]
    exact (h a x (List.mem_cons_self ..)).bind fun b => ih (fun a y hy => h a y (List.mem_cons_of_mem _ hy)) b

theorem out_cardNew (baseid : ℤ) : outTrack.Follows (cardNew env baseid) :=
  out_of_quiet fun w => wp_mono (wp_cardNew baseid w) (fun _ _ h => h.1) fun _ _ h => h

theorem out_initCard (p : Pack) (baseid : ℤ) : outTrack.Follows (initCard env p baseid) :=
  (out_cardNew baseid).bind fun _ => (out_assertion _ _).bind fun _ => follows_pure _

theorem out_initItemLoop (baseid : ℤ) (slots : ℕ) (number : ℤ) (p : Pack) :
    outTrack.Follows (initItemLoop env baseid slots number p) := by
  induction slots generalizing number p with
  | zero => exact follows_pure _
  | succ slots ih =>
    refine Follows.ite (fun _ => follows_pure _) fun _ => (out_of_quiet (quiet_itemNew _ _)).bind fun i => ?_
    refine (out_assertion _ _).bind fun _ => follows_get.bind fun w => ?_
    exact Follows.ite (fun _ => follows_pure _) fun _ => ih _ _

theorem out_initItem (base : EntityBase) (p : Pack) (entry : ℤ × ℤ) : outTrack.Follows (initItem env base p entry) := by
  refine follows_get.bind fun w => ?_
  dsimp only
  split
  · exact out_initItemLoop _ _ _ _
  · refine (out_modify (by intro; rfl) (by intro; rfl)).bind fun _ => follows_get.bind fun u => ?_
    exact out_initItemLoop _ _ _ _

theorem out_initPuppet {new : ℤ → Run ℤ} (hnew : ∀ baseid, outTrack.Follows (new baseid)) (baseid : ℤ) (p : Pack)
    (entry : ℤ × ℤ) : outTrack.Follows (initPuppet new baseid p entry) := by
  refine (out_assertion _ _).bind fun _ => (hnew _).bind fun target => Follows.ite (fun _ => ?_) fun _ => ?_
  · exact (out_assertion _ _).bind fun _ => follows_pure _
  · exact (out_assertion _ _).bind fun _ => (out_assertion _ _).bind fun _ => follows_pure _

theorem out_initBuff (e : ℤ) (p : Pack) (entry : ℤ × ℤ) : outTrack.Follows (initBuff env e p entry) := by
  refine follows_get.bind fun w => ?_
  split
  · exact (out_of_quiet (quiet_layersAdd _ _)).bind fun _ => follows_pure _
  · refine (out_modify (by intro; rfl) (by intro; rfl)).bind fun _ => ?_
    exact (out_of_quiet (quiet_buffNew _ _ _)).bind fun _ => (out_assertion _ _).bind fun _ => follows_pure _

/-- An entity that is made is in no match, and neither are its puppets. -/
theorem out_entityNew (side : Side) (span : Span) (fuel : ℕ) (master : Option ℤ) (baseid : ℤ) :
    outTrack.Follows (entityNew env side span fuel master baseid) := by
  induction fuel generalizing master baseid with
  | zero => exact out_throw _
  | succ fuel ih =>
    refine follows_get.bind fun w => (out_modify (by intro; rfl) (by intro; rfl)).bind fun _ => ?_
    split
    · exact out_throw _
    · rename_i base hbase
      have hset : outTrack.Follows (modify fun u => u.setEntity w.nextEntity
          { baseid := baseid, base := base, master := master, side := side, seed := env.birth w.nextEntity } : Run PUnit) := by
        refine follows_modify fun u => ⟨rfl, fun i hi => ?_⟩
        by_cases hie : i = w.nextEntity
        · rw [hie, World.entityAt_setEntity_self]
        · rw [World.entityAt_setEntity_of_ne _ hie]
          exact hi
      have hpack : outTrack.Follows (packInit env (entityNew env side span fuel (some w.nextEntity)) w.nextEntity baseid
          base span) := by
        refine (out_foldlM _ (fun p b _ => out_initCard p b) _).bind fun p => ?_
        refine (out_foldlM _ (fun p x _ => out_initItem base p x) _).bind fun p => ?_
        refine (out_foldlM _ (fun p x _ => out_initPuppet (ih _) baseid p x) _).bind fun p => ?_
        exact out_foldlM _ (fun p x _ => out_initBuff _ p x) _
      have hwrite (p : Pack) : outTrack.Follows (modifyPack w.nextEntity fun _ => p) :=
        @out_modifyEntity w.nextEntity (fun x => { x with pack := p }) fun _ hx => hx
      exact hset.bind fun _ => hpack.bind fun p => (hwrite p).bind fun _ =>
        (out_of_quiet (quiet_notifyClient _)).bind fun _ => follows_pure _

/-! ### Gathering -/

/-- While a match of the scene `s` is prepared, from the world `w` on. -/
structure Gathering (depth : ℕ) (w : World) (s : Scene) (m : Match) (u : World) : Prop where
  scene : u.scene = some { s with sceneMatch := some m }
  isdone : m.isdone = false
  isstart : m.isstart = false
  roundEntityid : m.roundEntityid = none
  mustered : u.Mustered depth s m.entities
  out : ∀ e, (u.entityAt e).backup = none
  old : ∀ e < w.nextEntity, u.entityAt e = w.entityAt e
  nextEntity : w.nextEntity ≤ u.nextEntity
  copySet : u.copySet = w.copySet
  copyMembers : u.copyMembers = w.copyMembers
  entityMaster : u.entityMaster = w.entityMaster

/-- The match has been prepared as far as possible. -/
def Gathered (depth : ℕ) (w : World) (s : Scene) (u : World) : Prop := ∃ m, Gathering depth w s m u

/-- If nobody is in a match, all packs are those outside of matches. -/
theorem World.atHome_of_out {w : World} (h : ∀ e, (w.entityAt e).backup = none) : w.atHome = w := by
  have hentity : w.atHome.entityAt = w.entityAt := by
    funext e
    have hout := h e
    simp only [World.atHome, World.home_of_out hout, World.pack]
    cases hx : w.entityAt e
    rw [hx] at hout
    simp_all
  show ({ w with entityAt := w.atHome.entityAt } : World) = w
  rw [hentity]

namespace World

variable {w w' : World} {s : Scene}

/-- The roster stays as long as the members do. -/
theorem roster_of_old (hally : ∀ e ∈ w.roster s, w.Ally e) (hold : ∀ e < w.nextEntity, w'.entityAt e = w.entityAt e) :
    w'.roster s = w.roster s :=
  roster_congr rfl fun e he => by rw [home_congr (hold e (hally e (mem_roster_of_member he)).lt)]

namespace Mustered

variable {l : List ℤ}

/-- Whom the list concerns has been made. -/
theorem lt_of_mem_party (h : w.Mustered depth s l) (hally : ∀ e ∈ w.roster s, w.Ally e) {e t : ℤ} (he : e ∈ l)
    (ht : t ∈ w.party depth e) : t < w.nextEntity := by
  rw [party] at ht
  split_ifs at ht with hside
  · rw [List.mem_singleton.1 ht]
    exact (hally e (h.ally e he hside)).lt
  · exact ((h.monster e he hside).1.sound.of_mem_kin ht).2.1

/-- Entities that are made change nothing for those of the list. -/
theorem grown (h : w.Mustered depth s l) (hally : ∀ e ∈ w.roster s, w.Ally e) (hout : ∀ e, (w.entityAt e).backup = none)
    (hgrown : Grown w w') (hout' : ∀ e, (w'.entityAt e).backup = none) :
    w'.Mustered depth s l ∧ ∀ e ∈ l, w'.party depth e = w.party depth e := by
  have hroster := roster_of_old hally hgrown.entityAt
  have hold {e : ℤ} (he : e ∈ l) : w'.entityAt e = w.entityAt e :=
    hgrown.entityAt e (h.lt_of_mem_party hally he (h.mem_party he))
  have hown {e : ℤ} (he : e ∈ l) (hnot : (w.entityAt e).side ≠ .allies) :
      w'.Discharged depth e ∧ w'.atHome.kin depth e = w.atHome.kin depth e := by
    obtain ⟨hsound, -⟩ := (h.monster e he hnot).1
    rw [World.atHome_of_out hout] at hsound ⊢
    obtain ⟨hsound', hkin⟩ := hsound.grown hgrown
    rw [World.atHome_of_out hout']
    exact ⟨⟨by rw [World.atHome_of_out hout']; exact hsound', fun t _ _ => hout' t⟩, hkin⟩
  have hparty {e : ℤ} (he : e ∈ l) : w'.party depth e = w.party depth e := by
    rw [party, party, hold he]
    split_ifs with hside
    · rfl
    · exact (hown he hside).2
  refine ⟨⟨?_, fun e he hside => ?_, fun e he hnot => ?_⟩, fun e => hparty⟩
  · rw [List.flatMap_congr fun e he => hparty he]
    exact h.nodup
  · rw [hold he] at hside
    rw [hroster]
    exact h.ally e he hside
  · rw [hold he] at hnot
    obtain ⟨-, hspan, hafter⟩ := h.monster e he hnot
    rw [home_congr (hold he), hroster]
    exact ⟨(hown he hnot).1, hspan, hafter⟩

end Mustered

end World

namespace Gathering

variable {w u u' : World} {s : Scene} {m : Match}

theorem sceneMatch (h : Gathering depth w s m u) : u.sceneMatch = some m := World.sceneMatch_of_scene h.scene

theorem ally (h : Gathering depth w s m u) {e : ℤ} (he : w.Ally e) : u.Ally e := he.congr (h.old e he.lt) h.nextEntity

theorem roster (h : Gathering depth w s m u) (hally : ∀ e ∈ w.roster s, w.Ally e) : u.roster s = w.roster s :=
  World.roster_of_old hally h.old

/-- Fields of the match other than its entities may be written. -/
theorem mapMatch (h : Gathering depth w s m u) {f : Match → Match} (hentities : (f m).entities = m.entities)
    (hdone : (f m).isdone = m.isdone) (hstart : (f m).isstart = m.isstart) (hturn : (f m).roundEntityid = none) :
    Gathering depth w s (f m) (u.mapMatch f) := by
  refine ⟨by rw [World.mapMatch, h.scene]; rfl, hdone.trans h.isdone, hstart.trans h.isstart, hturn, ?_, h.out, h.old,
    h.nextEntity, h.copySet, h.copyMembers, h.entityMaster⟩
  rw [hentities]
  exact h.mustered.congr (fun _ => rfl) (fun _ => rfl) rfl (fun _ => rfl) rfl fun _ _ => id

/-- An entity is added that nobody else in the match is concerned with. -/
theorem add (h : Gathering depth w s m u) {e : ℤ} (hmustered : u.Mustered depth s (m.entities ++ [e])) :
    Gathering depth w s { m with entities := m.entities ++ [e], roundList := m.roundList ++ [e] }
      (u.mapMatch fun m => { m with entities := m.entities ++ [e], roundList := m.roundList ++ [e] }) := by
  refine ⟨by rw [World.mapMatch, h.scene]; rfl, h.isdone, h.isstart, h.roundEntityid, ?_, h.out, h.old, h.nextEntity,
    h.copySet, h.copyMembers, h.entityMaster⟩
  exact hmustered.congr (fun _ => rfl) (fun _ => rfl) rfl (fun _ => rfl) rfl fun _ _ => id

/-- Entities may be made. -/
theorem grown (h : Gathering depth w s m u) (hally : ∀ e ∈ w.roster s, w.Ally e) (hgrown : Grown u u')
    (hout : StaysOut u u') : Gathering depth w s m u' where
  scene := hgrown.scene.trans h.scene
  isdone := h.isdone
  isstart := h.isstart
  roundEntityid := h.roundEntityid
  mustered := by
    have hroster := h.roster hally
    refine (h.mustered.grown (fun e he => h.ally (hally e (hroster ▸ he))) h.out hgrown fun e => hout.out e (h.out e)).1
  out e := hout.out e (h.out e)
  old e he := (hgrown.entityAt e (he.trans_le h.nextEntity)).trans (h.old e he)
  nextEntity := h.nextEntity.trans hgrown.nextEntity
  copySet := (congrArg World.copySet hgrown.frame :).trans h.copySet
  copyMembers := (congrArg World.copyMembers hgrown.frame :).trans h.copyMembers
  entityMaster := hgrown.entityMaster.trans h.entityMaster

end Gathering

/-! ### The programs -/

section Programs

variable {w u : World} {s : Scene} {m : Match}

/-- An ally of the roster is added, if it is not there yet. -/
theorem wp_addMember (hally : ∀ e ∈ w.roster s, w.Ally e) (h : Gathered depth w s u) {e : ℤ} (he : e ∈ w.roster s) :
    wp (addMember e) (fun _ u' => Gathered depth w s u') (fun _ u' => Gathered depth w s u') u := by
  obtain ⟨m, h⟩ := h
  rw [addMember, wp_bind, wp_getMatch]
  refine ⟨fun m' hm' => ?_, fun _ => ⟨m, h⟩⟩
  obtain rfl : m = m' := Option.some.inj (h.sceneMatch.symm.trans hm')
  rw [wp_bind, wp_assertion]
  refine ⟨fun _ => ?_, fun _ => ⟨m, h⟩⟩
  rw [wp_bind, wp_assertion]
  refine ⟨fun hnew => ?_, fun _ => ⟨m, h⟩⟩
  rw [wp_modifyMatch]
  have hside := (h.ally (hally e he)).side
  have hroster := h.roster hally
  have hparty : u.party depth e = [e] := if_pos hside
  refine ⟨_, h.add (h.mustered.concat ?_ (fun i hi t ht => ?_) (fun _ => hroster ▸ he) fun hnot => absurd hside hnot)⟩
  · rw [hparty]
    exact List.nodup_singleton e
  · rw [hparty, List.mem_singleton]
    rintro rfl
    rw [World.party] at ht
    split_ifs at ht with hallies
    · exact hnew (List.mem_singleton.1 ht ▸ hi)
    · -- A monster has been made after everybody on the roster.
      obtain ⟨⟨hsound, -⟩, -, hafter⟩ := h.mustered.monster i hi hallies
      exact absurd (hafter t (hroster ▸ he)) (not_lt.2 (hsound.of_mem_kin ht).1)

theorem wp_addMembers (hally : ∀ e ∈ w.roster s, w.Ally e) (h : Gathered depth w s u) :
    wp (addMembers env s.members) (fun _ u' => Gathered depth w s u') (fun _ u' => Gathered depth w s u') u := by
  refine wp_forM (fun e he v hv => ?_) h
  have hmember : e ∈ s.members := env.mem_pairs.1 he
  rw [wp_bind, wp_getPack]
  refine wp_forM (fun t ht v' hv' => wp_addMember hally hv' ?_) hv
  obtain ⟨m, hm⟩ := hv
  have hself := hm.old e (hally e (World.mem_roster_of_member hmember)).lt
  refine World.mem_roster_of_placeholder hmember ?_
  rw [← World.home_congr hself, World.home_of_out (hm.out e)]
  exact ht

/-- A monster is made and added. -/
theorem wp_addMonster (hally : ∀ e ∈ w.roster s, w.Ally e) (h : Gathered depth w s u) {side : Side} (hside : side ≠ .allies)
    (baseid : ℤ) : wp (addMonster env depth side baseid) (fun _ u' => Gathered depth w s u')
      (fun _ u' => Gathered depth w s u') u := by
  obtain ⟨m, h⟩ := h
  rw [addMonster, wp_bind, wp_getMatch]
  refine ⟨fun m' hm' => ?_, fun _ => ⟨m, h⟩⟩
  obtain rfl : m = m' := Option.some.inj (h.sceneMatch.symm.trans hm')
  rw [wp_bind, wp_assertion]
  refine ⟨fun _ => ?_, fun _ => ⟨m, h⟩⟩
  rw [wp_bind]
  refine wp_mono (wp_and (wp_entityNew side .copy depth none baseid u) (out_entityNew side .copy depth none baseid u)) ?_
    fun _ _ hv => ⟨m, h.grown hally hv.1 hv.2⟩
  rintro e v ⟨⟨rfl, hgrown, hmade⟩, hout⟩
  have hv := h.grown hally hgrown hout
  have hroster := h.roster hally
  have hallyu : ∀ e ∈ u.roster s, u.Ally e := fun e he => h.ally (hally e (hroster ▸ he))
  obtain ⟨-, hparties⟩ := h.mustered.grown hallyu h.out hgrown hv.out
  have hhome : v.atHome = v := World.atHome_of_out hv.out
  have hnot : (v.entityAt u.nextEntity).side ≠ .allies := by
    rw [hmade.side]
    exact hside
  have hparty : v.party depth u.nextEntity = v.kin depth u.nextEntity := by
    rw [World.party, if_neg hnot, hhome]
  rw [wp_bind, wp_getMatch]
  refine ⟨fun m' hm' => ?_, fun _ => ⟨m, hv⟩⟩
  obtain rfl : m = m' := Option.some.inj (hv.sceneMatch.symm.trans hm')
  rw [wp_bind, wp_assertion]
  refine ⟨fun _ => ?_, fun _ => ⟨m, hv⟩⟩
  rw [wp_modifyMatch]
  refine ⟨_, hv.add (hv.mustered.concat ?_ (fun i hi t ht => ?_) (fun hallies => absurd hallies hnot) fun _ => ?_)⟩
  · rw [hparty]
    exact hmade.nodup
  · rw [hparties i hi] at ht
    rw [hparty]
    exact fun hmem => absurd (hmade.sound.of_mem_kin hmem).1 (not_le.2 (h.mustered.lt_of_mem_party hallyu hi ht))
  · refine ⟨⟨by rw [hhome]; exact hmade.sound, fun t _ _ => hv.out t⟩, ?_, fun r hr => ?_⟩
    · rw [World.home_of_out hmade.backup]
      exact hmade.span
    · rw [hv.roster hally] at hr
      exact (hally r hr).lt.trans_le h.nextEntity

theorem wp_addMonsters (hally : ∀ e ∈ w.roster s, w.Ally e) (h : Gathered depth w s u) (monsters : List (ℤ × ℤ)) :
    wp (addMonsters env depth monsters) (fun _ u' => Gathered depth w s u') (fun _ u' => Gathered depth w s u') u :=
  wp_forM (fun _ _ _ hv => wp_forM (fun baseid _ _ hv' => wp_addMonster hally hv' (by decide) baseid) hv) h

theorem wp_prepare (h : Gathered depth w s u) :
    wp prepare (fun _ u' => Gathered depth w s u') (fun _ u' => Gathered depth w s u') u := by
  obtain ⟨m, h⟩ := h
  rw [prepare, wp_bind, wp_get, wp_bind, wp_getMatch]
  refine ⟨fun m' _ => ?_, fun _ => ⟨m, h⟩⟩
  rw [wp_bind, wp_assertion]
  refine ⟨fun _ => ?_, fun _ => ⟨m, h⟩⟩
  rw [wp_bind, wp_assertion]
  refine ⟨fun _ => ?_, fun _ => ⟨m, h⟩⟩
  rw [wp_bind, wp_assertion]
  refine ⟨fun _ => ?_, fun _ => ⟨m, h⟩⟩
  have hlisted : Gathered depth w s (u.mapMatch fun m => { m with
      roundTotal := 0, roundEntityid := none, roundIterator := some 0, roundListSize := some m.roundList.length }) :=
    ⟨_, h.mapMatch rfl rfl rfl rfl⟩
  rw [initRoundList, wp_bind, wp_modifyMatch, wp_bind, wp_getMatch]
  refine ⟨fun _ _ => ?_, fun _ => hlisted⟩
  rw [wp_assertion]
  exact ⟨fun _ => hlisted, fun _ => hlisted⟩

/-- **What `Scene:prepare_match` does in a scene as it should be**: nothing, or some entities are mustered for a match,
all of them if it returns. -/
theorem wp_prepareMatch (hs : w.scene = some s) (hally : ∀ e ∈ w.roster s, w.Ally e)
    (hout : ∀ e, (w.entityAt e).backup = none) {Q : World → Prop} (hrefuse : Q w)
    (hgathered : w.monsterEvent.isSome → ∀ u, Gathered depth w s u → Q u) :
    wp (prepareMatch env depth) (fun _ => Q) (fun _ => Q) w := by
  rw [prepareMatch, wp_bind, wp_get, wp_bind, wp_assertion]
  refine ⟨fun _ => ?_, fun _ => hrefuse⟩
  cases hevent : w.monsterEvent with
  | none =>
    rw [hs]
    exact hrefuse
  | some event =>
    have hgo : ∀ u, Gathered depth w s u → Q u := hgathered (by rw [hevent]; rfl)
    have hbegin : Gathered depth w s (w.withMatch (some {})) := by
      refine ⟨{}, by rw [World.withMatch, hs]; rfl, rfl, rfl, rfl, ?_, hout, fun _ _ => rfl, le_refl _, rfl, rfl, rfl⟩
      exact ⟨List.nodup_nil, fun e he => absurd he List.not_mem_nil, fun e he => absurd he List.not_mem_nil⟩
    rw [hs]
    dsimp only
    rw [wp_bind, wp_modify, wp_bind]
    refine wp_mono (wp_addMembers hally hbegin) (fun _ u hu => ?_) fun _ _ hu => hgo _ hu
    cases event.content.bind Content.monster with
    | none => exact hgo u hu
    | some monsters =>
      show wp (addMonsters env depth monsters >>= fun _ => prepare) _ _ u
      rw [wp_bind]
      refine wp_mono (wp_addMonsters hally hu monsters) (fun _ v hv => ?_) fun _ _ hu => hgo _ hu
      exact wp_mono (wp_prepare hv) (fun _ _ hv => hgo _ hv) fun _ _ hv => hgo _ hv

end Programs

/-- **A match that has been prepared, as far as it has come, is as it should be.** -/
theorem World.Steady.gathered {w u : World} {before : ℤ → Pack} {s : Scene} (h : w.Steady depth before)
    (hs : w.scene = some s) (hally : ∀ e ∈ w.roster s, w.Ally e) (hevent : w.monsterEvent.isSome)
    (hgathered : Gathered depth w s u) : u.Steady depth (u.since before) := by
  obtain ⟨m, hm⟩ := hgathered
  refine next (fun e hin => absurd (hm.out e) hin) (fun _ => ?_) fun s' hs' => .inr ⟨⟨fun e he => ?_, fun m' hm' => ?_⟩,
    fun e hin => absurd (hm.out e) hin⟩
  · obtain ⟨hset, hmembers, hmaster⟩ := h.based (by rw [hs]; exact Option.some_ne_none s)
    exact ⟨hm.copySet.trans hset, hm.copyMembers ▸ hmembers, hm.entityMaster ▸ hmaster⟩
  all_goals
    obtain rfl : { s with sceneMatch := some m } = s' := Option.some.inj (hm.scene.symm.trans hs')
  · have hroster : u.roster { s with sceneMatch := some m } = w.roster s := hm.roster hally
    exact hm.ally (hally e (hroster ▸ he))
  · obtain rfl : m = m' := Option.some.inj hm'
    refine ⟨?_, fun hdone => ?_, fun _ => ⟨hm.roundEntityid, fun e _ => hm.out e⟩, ?_, fun e _ hin => absurd (hm.out e) hin,
      fun _ => hm.isstart⟩
    · rw [World.monsterEvent_congr (w := w) (by rw [hs, hm.scene]; rfl)]
      exact hevent
    · rw [hm.isdone] at hdone
      cases hdone
    · exact hm.mustered.congr (fun _ => rfl) (fun _ => rfl) rfl (fun _ => rfl) rfl fun _ _ => id

end Slam.Game
