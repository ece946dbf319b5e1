import Slam.Scene.Sound

/-!
# What the functions of a scene keep

Every function keeps a sound scene sound and lowers no block, whether it returns or raises, and what it asserts about
tiles holds (`soundly`). Two functions need something of their caller for that: an entity that is added is no member yet,
and what an event leads to lies on the map and is no other entry (`Call.Meets`).
-/

namespace Slam.Grid

open Slam.Astar Raising
open Slam.Game (EventCategory)

variable {α : Type} {s : LiveScene} {outside : Outside} {order : Pairs}

/-- A scene that is sound stays so, its blocks only sink, and no watched fault is come to. -/
def soundly : Track SceneFault LiveScene where
  ok s s' := Sound s → Sound s' ∧ Lowers s s'
  error fault s s' := Sound s → (Sound s' ∧ Lowers s s') ∧ ¬ Watched fault
  refl s := fun hs => ⟨hs, .refl s⟩
  trans := by
    intro s t u hst htu hs
    obtain ⟨ht, hlowers⟩ := hst hs
    obtain ⟨hu, hlowers'⟩ := htu ht
    exact ⟨hu, hlowers.trans hlowers'⟩
  trans_error := by
    intro fault s t u hst htu hs
    obtain ⟨ht, hlowers⟩ := hst hs
    obtain ⟨⟨hu, hlowers'⟩, hfault⟩ := htu ht
    exact ⟨⟨hu, hlowers.trans hlowers'⟩, hfault⟩

/-- What a program does to a sound scene. -/
def Keeps (x : Play α) (s : LiveScene) : Prop :=
  wp x (fun _ s' => Sound s' ∧ Lowers s s') (fun fault s' => (Sound s' ∧ Lowers s s') ∧ ¬ Watched fault) s

theorem soundly_of_keeps {x : Play α} (h : ∀ s, Sound s → Keeps x s) : soundly.Follows x := fun s => wp_imp (h s)

theorem Keeps.of_soundly {x : Play α} (h : soundly.Follows x) (hs : Sound s) : Keeps x s :=
  wp_mono (h s) (fun _ _ hend => hend hs) fun _ _ hend => hend hs

/-- What follows a part that has kept the scene sound. -/
theorem keeps_after {x : Play α} {t : LiveScene} (hlowers : Lowers s t) (h : Keeps x t) :
    wp x (fun _ s' => Sound s' ∧ Lowers s s') (fun fault s' => (Sound s' ∧ Lowers s s') ∧ ¬ Watched fault) t :=
  wp_mono h (fun _ _ hend => ⟨hend.1, hlowers.trans hend.2⟩) fun _ _ hend => ⟨⟨hend.1.1, hlowers.trans hend.1.2⟩, hend.2⟩

/-! ### Small programs -/

@[simp] theorem wp_playAssertion {Q : Unit → LiveScene → Prop} {E : SceneFault → LiveScene → Prop} (func : SceneFunc) (p : Prop)
    [Decidable p] : wp (Play.assertion func p) Q E s ↔ (p → Q () s) ∧ (¬ p → E (.asserted func) s) := by
  unfold Play.assertion
  rw [wp_ite, wp_pure, wp_throw]

@[simp] theorem wp_tileAt {Q : LiveTile → LiveScene → Prop} {E : SceneFault → LiveScene → Prop} (func : SceneFunc) (c : Coord) :
    wp (Play.tileAt func c) Q E s ↔
      (∀ t, s.tiles c = some t → Q t s) ∧ (s.tiles c = none → E (.asserted func) s) := by
  unfold Play.tileAt
  rw [wp_bind, wp_get]
  cases s.tiles c <;> simp

@[simp] theorem wp_eventAt {Q : LiveEvent → LiveScene → Prop} {E : SceneFault → LiveScene → Prop} (id : ℤ) :
    wp (Play.eventAt id) Q E s ↔
      (∀ event, s.eventFind id = some event → Q event s) ∧ (s.eventFind id = none → E .raised s) := by
  unfold Play.eventAt
  rw [wp_bind, wp_get]
  cases s.eventFind id <;> simp

theorem not_watched_raised : ¬ Watched .raised := by decide

theorem soundly_raised : soundly.Follows (throw .raised : Play α) :=
  Track.follows_throw fun s hs => ⟨⟨hs, .refl s⟩, not_watched_raised⟩

theorem soundly_assertion {func : SceneFunc} (hfunc : ¬ Watched (.asserted func)) (p : Prop) [Decidable p] :
    soundly.Follows (Play.assertion func p) :=
  Track.Follows.ite (fun _ => Track.follows_pure ()) fun _ => Track.follows_throw fun s hs => ⟨⟨hs, .refl s⟩, hfunc⟩

theorem soundly_onlyIf {p : Prop} [Decidable p] {x : Play Unit} (hx : soundly.Follows x) :
    soundly.Follows (Play.onlyIf p x) :=
  Track.Follows.ite (fun _ => hx) fun _ => Track.follows_pure ()

theorem soundly_eventAt (id : ℤ) : soundly.Follows (Play.eventAt id) := by
  refine soundly_of_keeps fun s hs => (wp_eventAt id).2 ⟨fun _ _ => ⟨hs, .refl s⟩, fun _ => ?_⟩
  exact ⟨⟨hs, .refl s⟩, not_watched_raised⟩

theorem soundly_flag {f : LiveScene → LiveScene} (h : ∀ s, Flagged s (f s)) : soundly.Follows (modify f) :=
  Track.follows_modify fun s hs => ⟨(h s).sound hs, (h s).framed.toLowers⟩

/-- Members come, go and move, and stand on moveable coordinates. -/
theorem Sound.withMembers (hs : Sound s) {members : ℤ → Option Coord} (h : ∀ id c, members id = some c → s.moveable c) :
    Sound { s with members } ∧ Lowers s { s with members } := by
  have hframed : Framed s { s with members } := ⟨.of_tiles rfl rfl rfl, le_refl _, rfl⟩
  exact ⟨hframed.sound hs hs.block h, hframed.toLowers⟩

/-! ### Accomplishing -/

theorem resetblock_eq {c : Coord} (hvalid : s.map.validCoord c) (htile : s.tiles c ≠ none) :
    Play.resetblock c s = .ok () (s.resetAt [c]) := by
  obtain ⟨t, ht⟩ := Option.ne_none_iff_exists'.1 htile
  have hreset : { s with tiles := Function.update s.tiles c (some { t with block := s.highest t.objects }) } = s.resetAt [c] := by
    unfold LiveScene.resetAt
    congr 1
    funext d
    by_cases hd : d = c
    · subst hd
      simp [ht, LiveScene.reset]
    · simp [hd]
  refine eq_ok_of_wp ?_
  unfold Play.resetblock
  rw [wp_bind, wp_get, wp_bind, wp_playAssertion]
  refine ⟨fun _ => ?_, fun hinvalid => hinvalid hvalid⟩
  rw [wp_bind, wp_tileAt]
  refine ⟨fun t' ht' => ?_, fun hnone => htile hnone⟩
  obtain rfl := Option.some.inj (ht.symm.trans ht')
  exact hreset

/-- The loop over the tiles of an event. -/
theorem forM_resetblock {area : List Coord} (h : ∀ c ∈ area, s.map.validCoord c ∧ s.tiles c ≠ none) :
    area.forM Play.resetblock s = .ok () (s.resetAt area) := by
  induction area generalizing s with
  | nil =>
    rw [LiveScene.resetAt_nil]
    rfl
  | cons c area ih =>
    obtain ⟨hvalid, htile⟩ := h c List.mem_cons_self
    have hrest : ∀ d ∈ area, (s.resetAt [c]).map.validCoord d ∧ (s.resetAt [c]).tiles d ≠ none := by
      intro d hd
      obtain ⟨hvalid', htile'⟩ := h d (List.mem_cons_of_mem c hd)
      obtain ⟨t, ht⟩ := Option.ne_none_iff_exists'.1 htile'
      refine ⟨hvalid', ?_⟩
      rw [LiveScene.resetAt_tiles ht]
      exact Option.some_ne_none _
    rw [← LiveScene.resetAt_cons]
    exact (bind_of_ok (resetblock_eq hvalid htile)).trans (ih hrest)

/-- An event that has not been accomplished yet is. -/
theorem accomplishEvent_eq (hs : Sound s) {id : ℤ} {event : LiveEvent} (hfind : s.eventFind id = some event)
    (hnot : event.accomplish = false) : Play.accomplishEvent id s = .ok () (s.accomplish event) := by
  obtain ⟨hmem, rfl⟩ := LiveScene.eventFind_eq_some hfind
  have htiles : ∀ c ∈ footprint event.base.toObjectBase event.coord,
      (s.noteAccomplish event.id).map.validCoord c ∧ (s.noteAccomplish event.id).tiles c ≠ none := by
    intro c hc
    have hvalid := hs.inside event hmem c hc
    exact ⟨hvalid, hs.tiled c hvalid⟩
  refine eq_ok_of_wp ?_
  unfold Play.accomplishEvent
  rw [wp_bind, wp_eventAt]
  refine ⟨fun event' hfind' => ?_, fun hnone => ?_⟩
  · obtain rfl := Option.some.inj (hfind.symm.trans hfind')
    rw [wp_bind, wp_playAssertion]
    refine ⟨fun _ => ?_, fun haccomplish => haccomplish hnot⟩
    rw [wp_bind, wp_modify]
    exact (wp_ok (forM_resetblock htiles)).2 rfl
  · rw [hfind] at hnone
    cases hnone

theorem soundly_accomplishEvent (id : ℤ) : soundly.Follows (Play.accomplishEvent id) := by
  refine soundly_of_keeps fun s hs => ?_
  have hself : Sound s ∧ Lowers s s := ⟨hs, .refl s⟩
  cases hfind : s.eventFind id with
  | none =>
    unfold Keeps Play.accomplishEvent
    rw [wp_bind, wp_eventAt]
    exact ⟨fun event hevent => absurd (hevent.symm.trans hfind) (by simp), fun _ => ⟨hself, not_watched_raised⟩⟩
  | some event =>
    by_cases hnot : event.accomplish = false
    · obtain ⟨hmem, -⟩ := LiveScene.eventFind_eq_some hfind
      exact (wp_ok (accomplishEvent_eq hs hfind hnot)).2 ⟨hs.accomplish hmem, (hs.framed_accomplish hmem).toLowers⟩
    · unfold Keeps Play.accomplishEvent
      rw [wp_bind, wp_eventAt]
      refine ⟨fun event' hevent => ?_, fun hnone => absurd (hfind.symm.trans hnone) (by simp)⟩
      obtain rfl := Option.some.inj (hfind.symm.trans hevent)
      rw [wp_bind, wp_playAssertion]
      exact ⟨fun h => absurd h hnot, fun _ => ⟨hself, by decide⟩⟩

theorem soundly_doAccomplishEvents (eventsAccomplish : Option (List ℤ)) :
    soundly.Follows (Play.doAccomplishEvents order eventsAccomplish) := by
  cases eventsAccomplish with
  | none => exact Track.follows_pure ()
  | some eventsAccomplish =>
    unfold Play.doAccomplishEvents
    refine Track.follows_get.bind fun s => Track.Follows.forM fun event _ => soundly_onlyIf ?_
    have hflag : soundly.Follows (modify fun s : LiveScene =>
        s.updateEvent event.id fun event => { event with trigger := true, touch := true }) :=
      soundly_flag fun s => Flagged.updateEvent s event.id fun _ => rfl
    exact hflag.bind fun _ => soundly_accomplishEvent event.id

/-! ### Events -/

theorem soundly_contentOf (entityid : ℤ) (event : LiveEvent) : soundly.Follows (Play.contentOf outside entityid event) := by
  unfold Play.contentOf
  cases event.content with
  | some content => exact Track.follows_pure content
  | none =>
    cases outside.script entityid event.baseid with
    | none => exact soundly_raised
    | some content =>
      have hflag : soundly.Follows (modify fun s : LiveScene =>
          s.updateEvent event.id fun event => { event with content := some content }) :=
        soundly_flag fun s => Flagged.updateEvent s event.id fun _ => rfl
      exact hflag.bind fun _ => Track.follows_pure content

theorem soundly_takeEventContent (entityid id : ℤ) : soundly.Follows (Play.takeEventContent outside entityid id) := by
  unfold Play.takeEventContent
  refine (soundly_eventAt id).bind fun event => (soundly_assertion (by decide) _).bind fun _ => ?_
  refine (soundly_contentOf entityid event).bind fun content => ?_
  cases event.base.category with
  | entry | exit => exact Track.follows_pure ()
  | none | monster | shopBuyCard | shopDestroyCard | story | shopLevelupCard | storyOption | reward | shopLevelupPuppet =>
    exact soundly_assertion (by decide) _

theorem soundly_dispatchEvent (entityid id : ℤ) (isUpdate : Bool) :
    soundly.Follows (Play.dispatchEvent outside entityid id isUpdate) := by
  unfold Play.dispatchEvent
  refine (soundly_eventAt id).bind fun event => (soundly_assertion (by decide) _).bind fun _ => ?_
  refine Track.Follows.ite (fun _ => Track.follows_pure false) fun _ => ?_
  have hflag : soundly.Follows (modify fun s : LiveScene => s.updateEvent id fun event => { event with trigger := true }) :=
    soundly_flag fun s => Flagged.updateEvent s id fun _ => rfl
  have hlayer : soundly.Follows (modify fun s : LiveScene => { s with enterNextLayer := true }) :=
    soundly_flag fun s => ⟨rfl, rfl, rfl, rfl, le_refl _, rfl⟩
  refine hflag.bind fun _ => (soundly_takeEventContent entityid id).bind fun _ => ?_
  refine (soundly_onlyIf hlayer).bind fun _ => (soundly_onlyIf (soundly_accomplishEvent id)).bind fun _ => ?_
  exact Track.follows_pure true

/-! ### Members -/

theorem soundly_abortMatch (entityid : ℤ) : soundly.Follows (Play.abortMatch outside entityid) := by
  unfold Play.abortMatch
  refine Track.follows_get.bind fun s => Track.follows_get.bind fun s' => ?_
  cases s.triggerEvent.bind s'.eventFind with
  | none => exact Track.follows_pure ()
  | some event => exact soundly_onlyIf soundly_raised

theorem soundly_removeMember (entity : Visitor) : soundly.Follows (Play.removeMember outside entity) := by
  unfold Play.removeMember
  have hremove : soundly.Follows (modify fun s : LiveScene =>
      { s with members := Function.update s.members entity.id none }) := by
    refine Track.follows_modify fun s hs => hs.withMembers fun id c hc => ?_
    by_cases hid : id = entity.id
    · rw [hid, Function.update_self] at hc
      cases hc
    · rw [Function.update_of_ne hid] at hc
      exact hs.members id c hc
  refine Track.follows_get.bind fun s => (soundly_assertion (by decide) _).bind fun _ => ?_
  refine Track.follows_get.bind fun s => soundly_onlyIf (hremove.bind fun _ => Track.follows_get.bind fun s => ?_)
  exact soundly_onlyIf (soundly_abortMatch entity.id)

theorem soundly_enterScene (entity : Visitor) : soundly.Follows (Play.enterScene order entity) := by
  unfold Play.enterScene
  cases entity.recording with
  | noRecord | noLayer => exact Track.follows_pure ()
  | noCopy => exact soundly_raised
  | layer eventsAccomplish => exact soundly_doAccomplishEvents eventsAccomplish

/-- The entry is there, and it can be entered. -/
theorem Sound.tilesEntryCoord (hs : Sound s) (order : Pairs) : ∃ c, s.tilesEntryCoord order = some c ∧ s.moveable c := by
  obtain ⟨event, hmem, hcategory⟩ := hs.entry
  have hperm := order.visit_perm s.events
  unfold LiveScene.tilesEntryCoord
  cases hfind : (order.visit s.events).find? fun event => event.base.category == .entry with
  | none =>
    have hnot := List.find?_eq_none.1 hfind event (hperm.mem_iff.2 hmem)
    exact absurd (beq_iff_eq.2 hcategory) hnot
  | some entry =>
    have hentry : entry.base.category = .entry := by simpa using List.find?_some hfind
    have hmem' := hperm.mem_iff.1 (List.mem_of_find?_eq_some hfind)
    exact ⟨entry.coord, rfl, hs.entries entry hmem' hentry⟩

theorem Sound.place (hs : Sound s) {c : Coord} (hc : s.moveable c) (entityid : ℤ) :
    Sound { s with members := Function.update s.members entityid (some c) } ∧
      Lowers s { s with members := Function.update s.members entityid (some c) } := by
  refine hs.withMembers fun id d hd => ?_
  by_cases hid : id = entityid
  · rw [hid, Function.update_self] at hd
    obtain rfl := Option.some.inj hd
    exact hc
  · rw [Function.update_of_ne hid] at hd
    exact hs.members id d hd

/-- **`add_member`**, for an entity of the copy that is no member yet. -/
theorem keeps_addMember (hs : Sound s) {entity : Visitor} (hcopy : entity.copyid = s.copyid)
    (hnew : s.members entity.id = none) : Keeps (Play.addMember order entity) s := by
  obtain ⟨c, hentry, hc⟩ := hs.tilesEntryCoord order
  have hsame : { s with members := Function.update s.members entity.id ((s.members entity.id).map fun _ => c) } = s := by
    rw [hnew, Option.map_none, ← hnew, Function.update_eq_self]
  unfold Keeps Play.addMember
  rw [wp_bind, wp_get, wp_bind, wp_playAssertion]
  refine ⟨fun _ => ?_, fun hother => absurd hcopy hother⟩
  rw [wp_bind, wp_get, hentry]
  simp only [wp_bind, wp_modify, wp_get, wp_playAssertion, hsame]
  refine ⟨fun _ => ⟨fun _ => ?_, fun hmember => absurd hnew hmember⟩, fun hblocked => absurd hc hblocked⟩
  obtain ⟨hplaced, hlowers⟩ := hs.place hc entity.id
  exact keeps_after hlowers (Keeps.of_soundly (soundly_enterScene entity) hplaced)

/-! ### Moving -/

/-- **`move`** -/
theorem keeps_move (hs : Sound s) (entityid : ℤ) (dest : Coord) : Keeps (Play.move entityid dest) s := by
  have hself : Sound s ∧ Lowers s s := ⟨hs, .refl s⟩
  unfold Keeps Play.move
  rw [wp_bind, wp_get]
  cases hmember : s.members entityid with
  | none => exact hself
  | some src =>
    simp only [wp_bind, wp_get, wp_playAssertion]
    refine ⟨fun _ => ?_, fun hblocked => absurd (hs.members entityid src hmember) hblocked⟩
    by_cases hvalid : s.map.validCoord dest
    · rw [hvalid, Bool.not_true, if_neg Bool.false_ne_true, wp_bind, wp_tileAt]
      refine ⟨fun t ht => ?_, fun hnone => absurd hnone (hs.tiled dest hvalid)⟩
      rw [wp_ite]
      refine ⟨fun _ => hself, fun hfree => ?_⟩
      rw [wp_bind, wp_modify]
      exact hs.place (LiveScene.moveable_iff.2 ⟨hvalid, t, ht, not_not.1 hfree⟩) entityid
    · rw [Bool.not_eq_true] at hvalid
      rw [hvalid, Bool.not_false, if_pos rfl]
      exact ⟨hself, not_watched_raised⟩

theorem soundly_followRoad (scene : LiveScene) (t : LiveTile) (src dest : Coord) :
    soundly.Follows (Play.followRoad scene t src dest) := by
  unfold Play.followRoad
  cases scene.toScene.adjustDest t.toTile src dest with
  | none => exact soundly_raised
  | some adjusted =>
    cases adjusted with
    | none => exact Track.follows_pure false
    | some dest =>
      dsimp only
      cases scene.toScene.roadsReply src dest with
      | none => exact soundly_raised
      | some reply => cases reply <;> exact Track.follows_pure _

/-- **`move_request`** -/
theorem keeps_moveRequest (hs : Sound s) (entityid : ℤ) (dest : Coord) : Keeps (Play.moveRequest outside entityid dest) s := by
  have hself : Sound s ∧ Lowers s s := ⟨hs, .refl s⟩
  unfold Keeps Play.moveRequest
  rw [wp_bind, wp_get]
  cases hmember : s.members entityid with
  | none => exact hself
  | some src =>
    simp only [wp_bind, wp_get]
    rw [wp_ite]
    refine ⟨fun _ => hself, fun _ => ?_⟩
    rw [wp_bind, wp_get, wp_ite]
    refine ⟨fun _ => hself, fun hvalid => ?_⟩
    rw [Bool.not_eq_true', Bool.not_eq_false] at hvalid
    simp only [wp_bind, wp_get, wp_tileAt, wp_modify]
    refine ⟨fun t ht => ?_, fun hnone => absurd hnone (hs.tiled dest hvalid)⟩
    have hflag : ∀ event : Option Ref, Flagged s { s with triggerEvent := event.map Ref.id } := fun event =>
      ⟨rfl, rfl, rfl, rfl, le_refl _, rfl⟩
    generalize s.toScene.checkEventTrigger t.toTile src = event
    refine keeps_after (hflag event).framed.toLowers (Keeps.of_soundly ?_ ((hflag event).sound hs))
    cases event with
    | some event => exact soundly_dispatchEvent entityid event.id false
    | none => exact Track.follows_get.bind fun scene => soundly_followRoad scene t src dest

/-! ### The scene as far as moving goes -/

theorem LiveScene.toScene_tiles (s : LiveScene) (c : Coord) : s.toScene.tiles c = (s.tiles c).map LiveTile.toTile := rfl

theorem LiveScene.toScene_moveable (s : LiveScene) (c : Coord) : s.toScene.moveable c = s.moveable c := by
  have hvalid : s.toScene.validCoord c = s.map.validCoord c := rfl
  unfold Scene.moveable LiveScene.moveable
  rw [hvalid, toScene_tiles]
  cases s.tiles c <;> rfl

/-- `move` is what it is for a scene in which nothing else happens. -/
theorem move_toScene (entityid : ℤ) (dest : Coord) :
    wp (Play.move entityid dest) (fun moved s' => s.toScene.move entityid dest = some (s'.toScene, moved))
      (fun _ s' => s' = s ∧ s.toScene.move entityid dest = none) s := by
  have hvalid : s.toScene.validCoord dest = s.map.validCoord dest := rfl
  unfold Play.move Scene.move
  rw [wp_bind, wp_get, show s.toScene.members entityid = s.members entityid from rfl]
  cases s.members entityid with
  | none => rfl
  | some src =>
    simp only [wp_bind, wp_get, wp_playAssertion, LiveScene.toScene_moveable, LiveScene.toScene_tiles, hvalid]
    refine ⟨fun hsrc => ?_, fun hblocked => ⟨trivial, if_pos (by simpa using hblocked)⟩⟩
    rw [hsrc, Bool.not_true, if_neg Bool.false_ne_true]
    cases s.map.validCoord dest with
    | false => exact ⟨rfl, rfl⟩
    | true =>
      rw [Bool.not_true, if_neg Bool.false_ne_true, if_neg Bool.false_ne_true, wp_bind, wp_tileAt]
      refine ⟨fun t ht => ?_, fun hnone => ?_⟩
      · rw [ht, wp_ite]
        exact ⟨fun hblocked => if_pos hblocked, fun hfree => if_neg hfree⟩
      · rw [hnone]
        exact ⟨rfl, rfl⟩

/-- So is `move_request`, unless it triggers an event. -/
theorem moveRequest_toScene {entityid : ℤ} {dest : Coord} {t : Scene} {reply : Reply}
    (hrequest : s.toScene.moveRequest entityid dest = some (t, reply)) (hreply : ∀ event, reply ≠ .dispatched event) :
    wp (Play.moveRequest outside entityid dest) (fun answered s' => s'.toScene = t ∧ (answered ↔ reply ≠ .refused))
      (fun _ _ => False) s := by
  have hvalid : ∀ c, s.toScene.validCoord c = s.map.validCoord c := fun _ => rfl
  unfold Scene.moveRequest at hrequest
  unfold Play.moveRequest
  rw [show s.toScene.members entityid = s.members entityid from rfl] at hrequest
  rw [wp_bind, wp_get]
  cases hmember : s.members entityid with
  | none =>
    rw [hmember] at hrequest
    obtain ⟨rfl, rfl⟩ := Prod.mk.inj (Option.some.inj hrequest)
    exact ⟨rfl, by simp⟩
  | some src =>
    rw [hmember] at hrequest
    simp only [hvalid, LiveScene.toScene_moveable, LiveScene.toScene_tiles] at hrequest
    simp only [wp_bind, wp_get]
    rw [wp_ite]
    refine ⟨fun hsrc => ?_, fun hsrc => ?_⟩
    · rw [if_pos hsrc] at hrequest
      obtain ⟨rfl, rfl⟩ := Prod.mk.inj (Option.some.inj hrequest)
      exact ⟨rfl, by simp⟩
    · rw [if_neg hsrc] at hrequest
      rw [wp_bind, wp_get, wp_ite]
      refine ⟨fun hdest => ?_, fun hdest => ?_⟩
      · rw [if_pos hdest] at hrequest
        obtain ⟨rfl, rfl⟩ := Prod.mk.inj (Option.some.inj hrequest)
        exact ⟨rfl, by simp⟩
      · rw [if_neg hdest] at hrequest
        obtain ⟨tile, htile, hrequest⟩ := Option.bind_eq_some_iff.1 hrequest
        obtain ⟨live, hlive, rfl⟩ := Option.map_eq_some_iff.1 htile
        rw [wp_bind, wp_tileAt]
        refine ⟨fun live' hlive' => ?_, fun hnone => absurd (hlive.symm.trans hnone) (by simp)⟩
        obtain rfl := Option.some.inj (hlive.symm.trans hlive')
        simp only [wp_bind, wp_get, wp_modify]
        cases hevent : s.toScene.checkEventTrigger live.toTile src with
        | some event =>
          simp only [hevent] at hrequest
          obtain ⟨-, rfl⟩ := Prod.mk.inj (Option.some.inj hrequest)
          exact absurd rfl (hreply event)
        | none =>
          simp only [hevent] at hrequest
          obtain ⟨adjusted, hadjusted, hrequest⟩ := Option.bind_eq_some_iff.1 hrequest
          -- no event is triggered, and the view is that of the scene without one
          have hadjust : ({ s with triggerEvent := none } : LiveScene).toScene.adjustDest live.toTile src dest = some adjusted :=
            hadjusted
          rw [Option.map_none, wp_bind, wp_get]
          unfold Play.followRoad
          rw [hadjust]
          cases adjusted with
          | none =>
            obtain ⟨rfl, rfl⟩ := Prod.mk.inj (Option.some.inj hrequest)
            exact ⟨rfl, by simp⟩
          | some dest =>
            obtain ⟨answer, hanswer, hrequest⟩ := Option.bind_eq_some_iff.1 hrequest
            obtain ⟨rfl, rfl⟩ := Prod.mk.inj (Option.some.inj hrequest)
            have hroads : ({ s with triggerEvent := none } : LiveScene).toScene.roadsReply src dest = some answer := hanswer
            dsimp only
            rw [hroads]
            cases answer with
            | refused => exact ⟨rfl, by simp⟩
            | stays | dispatched event | moves path => exact ⟨rfl, by simp⟩

/-! ### Linked events -/

/-- The scene with another event in `self.events`. -/
def LiveScene.withEvent (s : LiveScene) (event : LiveEvent) : LiveScene :=
  { s with events := s.events ++ [event], eventId := event.id }

/-- An event that is put on no tile, and is no entry. -/
theorem Sound.withEvent (hs : Sound s) {event : LiveEvent} (hid : s.eventId < event.id) (hnot : event.accomplish = false)
    (hcategory : event.base.category ≠ .entry)
    (hinside : ∀ c ∈ footprint event.base.toObjectBase event.coord, s.map.validCoord c) :
    Sound (s.withEvent event) ∧ Lowers s (s.withEvent event) := by
  have haccomplished : ∀ ref, (s.withEvent event).accomplished ref = s.accomplished ref := by
    intro ref
    unfold LiveScene.accomplished LiveScene.withEvent
    simp [hnot]
  have hlowers : Lowers s (s.withEvent event) := .of_tiles rfl rfl rfl
  refine ⟨?_, hlowers⟩
  constructor
  case tiled => exact hs.tiled
  case block =>
    intro c t ht
    rw [hs.block c t ht]
    exact (LiveScene.highest_congr fun object _ => haccomplished object.ref).symm
  case laid =>
    intro c t ht object hobject hevent
    obtain ⟨old, hold, hrest⟩ := hs.laid c t ht object hobject hevent
    exact ⟨old, List.mem_append_left _ hold, hrest⟩
  case inside =>
    intro e he
    rcases List.mem_append.1 he with hold | hnew
    · exact hs.inside e hold
    · rw [List.mem_singleton.1 hnew]
      exact hinside
  case ids =>
    show ((s.events ++ [event]).map LiveEvent.id).Nodup
    rw [List.map_append, List.map_singleton]
    refine List.nodup_append.2 ⟨hs.ids, List.nodup_singleton _, fun id hmem id' hmem' heq => ?_⟩
    obtain ⟨old, hold, rfl⟩ := List.mem_map.1 hmem
    have hle := hs.ids_le old hold
    have hnew := List.mem_singleton.1 hmem'
    omega
  case ids_le =>
    intro e he
    rcases List.mem_append.1 he with hold | hnew
    · exact (hs.ids_le e hold).trans hid.le
    · rw [List.mem_singleton.1 hnew]
      exact le_refl _
  case members => exact hs.members
  case entry =>
    obtain ⟨entry, hmem, hentry⟩ := hs.entry
    exact ⟨entry, List.mem_append_left _ hmem, hentry⟩
  case entries =>
    intro e he hentry
    rcases List.mem_append.1 he with hold | hnew
    · exact hs.entries e hold hentry
    · rw [List.mem_singleton.1 hnew] at hentry
      exact absurd hentry hcategory

/-- Creating an event that is no entry and lies on the map, and what is done next. -/
theorem keeps_createEventObject (hs : Sound s) {baseid : ℤ} {coord : Coord}
    (hbase : ∀ base ∈ outside.event baseid, base.category ≠ .entry ∧
      ∀ c ∈ footprint base.toObjectBase coord, s.map.validCoord c)
    {f : ℤ → Play α} (hf : ∀ id, soundly.Follows (f id)) : Keeps (Play.createEventObject outside baseid coord >>= f) s := by
  have hcounted : Flagged s { s with eventId := s.eventId + 1 } := ⟨rfl, rfl, rfl, rfl, Int.le_add_one (le_refl _), rfl⟩
  unfold Keeps Play.createEventObject
  rw [wp_bind, wp_bind, wp_modify]
  cases hevent : outside.event baseid with
  | none => exact ⟨⟨hcounted.sound hs, hcounted.framed.toLowers⟩, not_watched_raised⟩
  | some base =>
    obtain ⟨hcategory, hinside⟩ := hbase base hevent
    simp only [wp_bind, wp_get, wp_playAssertion, wp_modify, wp_pure]
    refine ⟨fun _ => ?_, fun htaken => ?_⟩
    · let event : LiveEvent := ⟨s.eventId + 1, baseid, base, coord, none, false, false, false⟩
      obtain ⟨hnext, hlowers⟩ := @Sound.withEvent s hs event (Int.lt_succ _) rfl hcategory hinside
      exact keeps_after hlowers (Keeps.of_soundly (hf _) hnext)
    · -- the id is a new one
      obtain ⟨event, hfind⟩ := Option.ne_none_iff_exists'.1 htaken
      obtain ⟨hmem, hid⟩ := LiveScene.eventFind_eq_some hfind
      have hle := hs.ids_le event hmem
      omega

/-- An accomplished event is found as before. -/
theorem Sound.eventFind_accomplish (hs : Sound s) {event event' : LiveEvent} (hmem : event ∈ s.events)
    (hfind : (s.accomplish event).eventFind event.id = some event') :
    event'.content = event.content ∧ event'.coord = event.coord := by
  obtain ⟨hmem', hid⟩ := LiveScene.eventFind_eq_some hfind
  obtain ⟨old, hold, rfl⟩ := LiveScene.mem_updateEvent hmem'
  have hsame : old.id = event.id := by
    split_ifs at hid with h
    · exact h
    · exact hid
  obtain rfl := List.inj_on_of_nodup_map hs.ids hold hmem hsame
  rw [if_pos rfl]
  exact ⟨rfl, rfl⟩

/-- The row of the event that this one leads to. -/
def LinksTo (outside : Outside) (event : LiveEvent) (base : EventBase) : Prop :=
  ∃ content ∈ event.content, ∃ baseid ∈ content.triggerEventBaseid, base ∈ outside.event baseid

/-- The end of `trigger_linked_event`, for an event that leads to none but good ones. -/
theorem keeps_linkedEvent (hs : Sound s) (entityid : ℤ) {event : LiveEvent}
    (hlinks : ∀ base, LinksTo outside event base →
      base.category ≠ .entry ∧ ∀ c ∈ footprint base.toObjectBase event.coord, s.map.validCoord c) :
    Keeps (Play.linkedEvent outside entityid event) s := by
  have hself : Sound s ∧ Lowers s s := ⟨hs, .refl s⟩
  unfold Play.linkedEvent
  by_cases hnot : event.accomplish = false
  · rw [if_pos hnot]
    exact hself
  · rw [if_neg hnot]
    cases hcontent : event.content with
    | none => exact ⟨hself, by decide⟩
    | some content =>
      dsimp only
      cases hbaseid : content.triggerEventBaseid with
      | none => exact hself
      | some baseid =>
        have hgood := fun base hbase => hlinks base ⟨content, hcontent, baseid, hbaseid, hbase⟩
        refine keeps_createEventObject hs hgood fun linked => ?_
        have hflag : soundly.Follows (modify fun s : LiveScene => { s with triggerEvent := some linked }) :=
          soundly_flag fun s => ⟨rfl, rfl, rfl, rfl, le_refl _, rfl⟩
        exact hflag.bind fun _ => soundly_dispatchEvent entityid linked false

/-- **`trigger_linked_event`**, when the event that is triggered leads to no entry, and to none over the edge. -/
theorem keeps_triggerLinkedEvent (hs : Sound s) (entityid : ℤ)
    (hlinks : ∀ event ∈ s.events, s.triggerEvent = some event.id → ∀ base, LinksTo outside event base →
      base.category ≠ .entry ∧ ∀ c ∈ footprint base.toObjectBase event.coord, s.map.validCoord c) :
    Keeps (Play.triggerLinkedEvent outside entityid) s := by
  have hself : Sound s ∧ Lowers s s := ⟨hs, .refl s⟩
  unfold Keeps Play.triggerLinkedEvent
  rw [wp_bind, wp_get, wp_bind, wp_get]
  cases hmember : s.members entityid with
  | none => exact hself
  | some src =>
    cases htrigger : s.triggerEvent with
    | none => exact hself
    | some id =>
      rw [wp_bind, wp_eventAt]
      refine ⟨fun event hfind => ?_, fun _ => ⟨hself, not_watched_raised⟩⟩
      obtain ⟨hmem, rfl⟩ := LiveScene.eventFind_eq_some hfind
      have hgood := hlinks event hmem htrigger
      rw [wp_bind]
      unfold Play.onlyIf
      rw [wp_ite]
      constructor
      · -- the reward has been received, so the event is accomplished first
        rintro ⟨hnot, -⟩
        have hlowers := (hs.framed_accomplish hmem).toLowers
        have hnext := hs.accomplish hmem
        rw [wp_ok (accomplishEvent_eq hs hfind hnot), wp_bind, wp_eventAt]
        refine ⟨fun event' hfind' => ?_, fun _ => ⟨⟨hnext, hlowers⟩, not_watched_raised⟩⟩
        obtain ⟨hcontent, hcoord⟩ := hs.eventFind_accomplish hmem hfind'
        refine keeps_after hlowers (keeps_linkedEvent hnext entityid fun base hbase => ?_)
        unfold LinksTo at hbase
        rw [hcontent] at hbase
        rw [hcoord]
        exact hgood base hbase
      · intro _
        rw [wp_pure, wp_bind, wp_eventAt]
        refine ⟨fun event' hfind' => ?_, fun _ => ⟨hself, not_watched_raised⟩⟩
        obtain rfl := Option.some.inj (hfind.symm.trans hfind')
        exact keeps_linkedEvent hs entityid hgood

/-! ### Any call -/

/-- What the event that is triggered leads to lies on the map. -/
def Call.Inside (outside : Outside) (s : LiveScene) : Call → Prop
  | .triggerLinkedEvent _ => ∀ event ∈ s.events, s.triggerEvent = some event.id → ∀ base, LinksTo outside event base →
      ∀ c ∈ footprint base.toObjectBase event.coord, s.map.validCoord c
  | _ => True

/-- It is no entry. -/
def Call.NoEntry (outside : Outside) (s : LiveScene) : Call → Prop
  | .triggerLinkedEvent _ => ∀ event ∈ s.events, s.triggerEvent = some event.id → ∀ base, LinksTo outside event base →
      base.category ≠ .entry
  | _ => True

/-- An entity that is added is one of the copy. -/
def Call.OfCopy (s : LiveScene) : Call → Prop
  | .addMember entity => entity.copyid = s.copyid
  | _ => True

/-- It is no member yet. -/
def Call.New (s : LiveScene) : Call → Prop
  | .addMember entity => s.members entity.id = none
  | _ => True

/-- What the caller sees to. -/
structure Call.Meets (outside : Outside) (s : LiveScene) (call : Call) : Prop where
  inside : call.Inside outside s
  noEntry : call.NoEntry outside s
  ofCopy : call.OfCopy s
  new : call.New s

/-- **Any call** keeps the scene sound. -/
theorem Call.keeps (order : Pairs) (hs : Sound s) {call : Call} (hmeets : call.Meets outside s) : Keeps (call.run outside order) s := by
  cases call with
  | addMember entity => exact keeps_addMember hs hmeets.ofCopy hmeets.new
  | removeMember entity => exact Keeps.of_soundly (soundly_removeMember entity) hs
  | move entityid dest => exact (wp_discard _).2 (keeps_move hs entityid dest)
  | moveRequest entityid dest => exact (wp_discard _).2 (keeps_moveRequest hs entityid dest)
  | accomplishEvent id => exact Keeps.of_soundly (soundly_accomplishEvent id) hs
  | triggerLinkedEvent entityid =>
    refine (wp_discard _).2 (keeps_triggerLinkedEvent hs entityid fun event hmem htrigger base hbase => ?_)
    exact ⟨hmeets.noEntry event hmem htrigger base hbase, hmeets.inside event hmem htrigger base hbase⟩
  | others content trigger touch inMatch =>
    refine Keeps.of_soundly (soundly_flag fun s => ?_) hs
    cases s.triggerEvent with
    | none => exact ⟨rfl, rfl, rfl, rfl, le_refl _, rfl⟩
    | some id =>
      have hupdate := Flagged.updateEvent s id (f := fun event => { event with content, trigger, touch }) fun _ => rfl
      exact ⟨rfl, rfl, rfl, rfl, le_refl _, hupdate.events⟩

/-- A run: calls made under a condition, in any world outside and whatever order `pairs` takes each time. -/
def Plays (meets : Outside → LiveScene → Call → Prop) : LiveScene → LiveScene → Prop :=
  Relation.ReflTransGen fun s s' => ∃ outside order call, meets outside s call ∧ s' = endState (call.run outside order) s

theorem Keeps.endState {x : Play α} (h : Keeps x s) : Sound (Raising.endState x s) ∧ Lowers s (Raising.endState x s) :=
  endState_of_wp (P := fun s' => Sound s' ∧ Lowers s s') (wp_mono h (fun _ _ => id) fun _ _ => And.left)

theorem Keeps.fault {x : Play α} (h : Keeps x s) {fault : SceneFault} (hfault : Raising.fault x s = some fault) :
    ¬ Watched fault :=
  ((wp_error (eq_error_of_fault hfault)).1 h).2

/-- **A run** keeps the scene sound. -/
theorem Plays.keeps {s' : LiveScene} (hs : Sound s) (hplays : Plays Call.Meets s s') : Sound s' ∧ Lowers s s' := by
  induction hplays with
  | refl => exact ⟨hs, .refl s⟩
  | tail _ hcall ih =>
    obtain ⟨outside, order, call, hmeets, rfl⟩ := hcall
    obtain ⟨hsound, hlowers⟩ := (Call.keeps order ih.1 hmeets).endState
    exact ⟨hsound, ih.2.trans hlowers⟩

end Slam.Grid
