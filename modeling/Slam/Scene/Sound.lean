import Slam.Scene.Live

/-!
# The tiles of a scene that is played

A tile is reset when an event on it is accomplished, so that its block stays the highest one (`Sound`), and can only
sink (`Lowers`), as an accomplished event is in nobody's way. So whoever stands on a moveable coordinate stays on one,
and the assertions that ask for that do not fail (`Watched`). A function that only notes something about events leaves
the tiles as they are (`Flagged`).
-/

namespace Slam.Grid

open Slam.Astar Raising
open Slam.Game (EventCategory)

/-- What is sound about a scene. -/
structure Sound (s : LiveScene) : Prop where
  tiled : ∀ c, s.map.validCoord c → s.tiles c ≠ none
  block : ∀ c t, s.tiles c = some t → t.block = s.highest t.objects
  laid : ∀ c t, s.tiles c = some t → ∀ object ∈ t.objects, object.ref.objectCategory = .event →
    ∃ event ∈ s.events, event.id = object.ref.id ∧ c ∈ footprint event.base.toObjectBase event.coord
  inside : ∀ event ∈ s.events, ∀ c ∈ footprint event.base.toObjectBase event.coord, s.map.validCoord c
  ids : (s.events.map LiveEvent.id).Nodup
  ids_le : ∀ event ∈ s.events, event.id ≤ s.eventId
  members : ∀ id c, s.members id = some c → s.moveable c
  entry : ∃ event ∈ s.events, event.base.category = .entry
  entries : ∀ event ∈ s.events, event.base.category = .entry → s.moveable event.coord

/-- The tiles keep their objects, and no block is higher than before. -/
structure Lowers (s s' : LiveScene) : Prop where
  map : s'.map = s.map
  copyid : s'.copyid = s.copyid
  tiles : ∀ c t, s.tiles c = some t → ∃ t', s'.tiles c = some t' ∧ t'.objects = t.objects ∧ t'.block.value ≤ t.block.value
  none : ∀ c, s.tiles c = none → s'.tiles c = none

/-- The faults that a sound scene does not come to. -/
def Watched (fault : SceneFault) : Prop :=
  fault ∈ [.asserted .resetblock, .asserted .addMember, .asserted .moveRequest, SceneFault.asserted .move]

instance : DecidablePred Watched := fun _ => List.instDecidableMemOfLawfulBEq _ _

variable {s s' : LiveScene}

/-! ### Blocks -/

theorem BlockCategory.eq_none_of_value {block : BlockCategory} (h : block.value ≤ 0) : block = .none := by
  cases block with
  | none => rfl
  | dynamic | static => simp [BlockCategory.value] at h

namespace LiveScene

theorem moveable_iff {c : Coord} : s.moveable c ↔ s.map.validCoord c ∧ ∃ t, s.tiles c = some t ∧ t.block = .none := by
  unfold moveable
  rw [Bool.and_eq_true]
  refine and_congr_right fun _ => ?_
  cases s.tiles c <;> simp

theorem highest_spec (s : LiveScene) (objects : List Laid) :
    (∀ object ∈ objects, (s.effective object).value ≤ (s.highest objects).value) ∧
      (s.highest objects = .none ∨ ∃ object ∈ objects, s.effective object = s.highest objects) :=
  Making.foldl_highest s.effective objects

/-- When no object is more in the way than before, neither are all of them. -/
theorem highest_mono {objects : List Laid} (h : ∀ object ∈ objects, (s'.effective object).value ≤ (s.effective object).value) :
    (s'.highest objects).value ≤ (s.highest objects).value := by
  rcases (s'.highest_spec objects).2 with hnone | ⟨object, hmem, hblock⟩
  · rw [hnone]
    exact Nat.zero_le _
  · rw [← hblock]
    exact (h object hmem).trans ((s.highest_spec objects).1 object hmem)

/-- The block depends on which of the objects have been accomplished. -/
theorem highest_congr {objects : List Laid} (h : ∀ object ∈ objects, s'.accomplished object.ref = s.accomplished object.ref) :
    s'.highest objects = s.highest objects := by
  unfold highest
  refine List.foldl_ext _ _ _ fun block object hmem => ?_
  unfold effective
  rw [h object hmem]

theorem eventFind_eq_some {id : ℤ} {event : LiveEvent} (h : s.eventFind id = some event) :
    event ∈ s.events ∧ event.id = id := by
  have hid := List.find?_some h
  exact ⟨List.mem_of_find?_eq_some h, beq_iff_eq.1 hid⟩

theorem accomplished_iff {ref : Ref} :
    s.accomplished ref ↔ ref.objectCategory = .event ∧ ∃ event ∈ s.events, event.id = ref.id ∧ event.accomplish := by
  unfold accomplished
  simp

theorem mem_updateEvent {id : ℤ} {f : LiveEvent → LiveEvent} {event : LiveEvent}
    (h : event ∈ (s.updateEvent id f).events) : ∃ old ∈ s.events, event = if old.id = id then f old else old := by
  obtain ⟨old, hold, rfl⟩ := List.mem_map.1 h
  exact ⟨old, hold, rfl⟩

/-- A tile after `resetblock`. -/
def reset (s : LiveScene) (t : LiveTile) : LiveTile := { t with block := s.highest t.objects }

/-- The tiles of these coordinates are reset. -/
def resetAt (s : LiveScene) (area : List Coord) : LiveScene :=
  { s with tiles := fun c => if c ∈ area then (s.tiles c).map s.reset else s.tiles c }

theorem resetAt_nil : s.resetAt [] = s := by
  unfold resetAt
  simp

theorem resetAt_cons (c : Coord) (area : List Coord) : (s.resetAt [c]).resetAt area = s.resetAt (c :: area) := by
  have htiles : ∀ d, ((s.resetAt [c]).resetAt area).tiles d = (s.resetAt (c :: area)).tiles d := by
    intro d
    show (if d ∈ area then (if d ∈ [c] then (s.tiles d).map s.reset else s.tiles d).map s.reset
      else if d ∈ [c] then (s.tiles d).map s.reset else s.tiles d) =
        if d ∈ c :: area then (s.tiles d).map s.reset else s.tiles d
    by_cases hd : d ∈ area
    · by_cases hdc : d ∈ [c]
      · rw [if_pos hd, if_pos hdc, if_pos (List.mem_cons_of_mem c hd), Option.map_map]
        rfl
      · rw [if_pos hd, if_neg hdc, if_pos (List.mem_cons_of_mem c hd)]
    · simp [hd]
  rw [show s.resetAt (c :: area) = { (s.resetAt [c]).resetAt area with tiles := (s.resetAt (c :: area)).tiles } from rfl]
  rw [← funext htiles]

/-- Whatever tile was there still is, reset or not. -/
theorem resetAt_tiles {area : List Coord} {c : Coord} {t : LiveTile} (h : s.tiles c = some t) :
    (s.resetAt area).tiles c = some (if c ∈ area then s.reset t else t) := by
  unfold resetAt
  simp only [h]
  split_ifs <;> rfl

end LiveScene

namespace Lowers

theorem of_tiles (hmap : s'.map = s.map) (hcopyid : s'.copyid = s.copyid) (htiles : s'.tiles = s.tiles) : Lowers s s' where
  map := hmap
  copyid := hcopyid
  tiles _ t ht := ⟨t, htiles ▸ ht, rfl, le_refl _⟩
  none _ hc := htiles ▸ hc

theorem refl (s : LiveScene) : Lowers s s := .of_tiles rfl rfl rfl

theorem trans {s'' : LiveScene} (h : Lowers s s') (h' : Lowers s' s'') : Lowers s s'' where
  map := h'.map.trans h.map
  copyid := h'.copyid.trans h.copyid
  tiles c t ht := by
    obtain ⟨t', ht', hobjects, hle⟩ := h.tiles c t ht
    obtain ⟨t'', ht'', hobjects', hle'⟩ := h'.tiles c t' ht'
    exact ⟨t'', ht'', hobjects'.trans hobjects, hle'.trans hle⟩
  none c hc := h'.none c (h.none c hc)

/-- Where a tile comes from. -/
theorem back (h : Lowers s s') {c : Coord} {t' : LiveTile} (ht' : s'.tiles c = some t') :
    ∃ t, s.tiles c = some t ∧ t'.objects = t.objects := by
  cases ht : s.tiles c with
  | none =>
    rw [h.none c ht] at ht'
    cases ht'
  | some t =>
    obtain ⟨t'', ht'', hobjects, -⟩ := h.tiles c t ht
    obtain rfl := Option.some.inj (ht'.symm.trans ht'')
    exact ⟨t, rfl, hobjects⟩

/-- Who could stand there still can. -/
theorem moveable (h : Lowers s s') {c : Coord} (hc : s.moveable c) : s'.moveable c := by
  obtain ⟨hvalid, t, ht, hblock⟩ := LiveScene.moveable_iff.1 hc
  obtain ⟨t', ht', -, hle⟩ := h.tiles c t ht
  rw [hblock] at hle
  exact LiveScene.moveable_iff.2 ⟨h.map ▸ hvalid, t', ht', BlockCategory.eq_none_of_value hle⟩

end Lowers

/-! ### Events in their places -/

/-- What an event covers. -/
def LiveEvent.frame (event : LiveEvent) : ℤ × EventBase × Coord := (event.id, event.base, event.coord)

/-- The events are where they were. -/
structure Framed (s s' : LiveScene) : Prop extends Lowers s s' where
  eventId : s.eventId ≤ s'.eventId
  events : s'.events.map LiveEvent.frame = s.events.map LiveEvent.frame

namespace Framed

theorem refl (s : LiveScene) : Framed s s := ⟨.refl s, le_refl _, rfl⟩

theorem mem (h : Framed s s') {event : LiveEvent} (hmem : event ∈ s.events) :
    ∃ event' ∈ s'.events, event'.id = event.id ∧ event'.base = event.base ∧ event'.coord = event.coord := by
  have hframe : event.frame ∈ s'.events.map LiveEvent.frame := h.events ▸ List.mem_map_of_mem hmem
  obtain ⟨event', hmem', heq⟩ := List.mem_map.1 hframe
  obtain ⟨hid, hrest⟩ := Prod.mk.inj heq
  exact ⟨event', hmem', hid, Prod.mk.inj hrest⟩

theorem symm_mem (h : Framed s s') {event' : LiveEvent} (hmem : event' ∈ s'.events) :
    ∃ event ∈ s.events, event.id = event'.id ∧ event.base = event'.base ∧ event.coord = event'.coord := by
  have hframe : event'.frame ∈ s.events.map LiveEvent.frame := h.events ▸ List.mem_map_of_mem hmem
  obtain ⟨event, hmem', heq⟩ := List.mem_map.1 hframe
  obtain ⟨hid, hrest⟩ := Prod.mk.inj heq
  exact ⟨event, hmem', hid, Prod.mk.inj hrest⟩

/-- What is left to show is that the blocks are right and the members stand well. -/
theorem sound (h : Framed s s') (hs : Sound s) (hblock : ∀ c t, s'.tiles c = some t → t.block = s'.highest t.objects)
    (hmembers : ∀ id c, s'.members id = some c → s'.moveable c) : Sound s' where
  tiled c hvalid hnone := by
    have htile := hs.tiled c (h.map ▸ hvalid)
    obtain ⟨t, ht⟩ := Option.ne_none_iff_exists'.1 htile
    obtain ⟨t', ht', -⟩ := h.tiles c t ht
    rw [hnone] at ht'
    cases ht'
  block := hblock
  laid c t' ht' object hobject hevent := by
    obtain ⟨t, ht, hobjects⟩ := h.back ht'
    obtain ⟨event, hmem, hid, hc⟩ := hs.laid c t ht object (hobjects ▸ hobject) hevent
    obtain ⟨event', hmem', hid', hbase, hcoord⟩ := h.mem hmem
    exact ⟨event', hmem', hid'.trans hid, by rw [hbase, hcoord]; exact hc⟩
  inside event' hmem' c hc := by
    obtain ⟨event, hmem, -, hbase, hcoord⟩ := h.symm_mem hmem'
    rw [h.map]
    exact hs.inside event hmem c (by rw [hbase, hcoord]; exact hc)
  ids := by
    have hids : ∀ events : List LiveEvent, events.map LiveEvent.id = (events.map LiveEvent.frame).map Prod.fst := by
      intro events
      rw [List.map_map]
      rfl
    rw [hids, h.events, ← hids]
    exact hs.ids
  ids_le event' hmem' := by
    obtain ⟨event, hmem, hid, -⟩ := h.symm_mem hmem'
    rw [← hid]
    exact (hs.ids_le event hmem).trans h.eventId
  members := hmembers
  entry := by
    obtain ⟨event, hmem, hcategory⟩ := hs.entry
    obtain ⟨event', hmem', -, hbase, -⟩ := h.mem hmem
    exact ⟨event', hmem', hbase ▸ hcategory⟩
  entries event' hmem' hcategory := by
    obtain ⟨event, hmem, -, hbase, hcoord⟩ := h.symm_mem hmem'
    rw [← hcoord]
    exact h.moveable (hs.entries event hmem (hbase ▸ hcategory))

end Framed

/-! ### What is noted about events -/

/-- What the tiles know of an event. -/
def LiveEvent.core (event : LiveEvent) : (ℤ × EventBase × Coord) × Bool := (event.frame, event.accomplish)

/-- Only what the tiles do not ask has changed. -/
structure Flagged (s s' : LiveScene) : Prop where
  map : s'.map = s.map
  copyid : s'.copyid = s.copyid
  tiles : s'.tiles = s.tiles
  members : s'.members = s.members
  eventId : s.eventId ≤ s'.eventId
  events : s'.events.map LiveEvent.core = s.events.map LiveEvent.core

namespace Flagged

theorem framed (h : Flagged s s') : Framed s s' := by
  refine ⟨.of_tiles h.map h.copyid h.tiles, h.eventId, ?_⟩
  have hframe : ∀ events : List LiveEvent, events.map LiveEvent.frame = (events.map LiveEvent.core).map Prod.fst := by
    intro events
    rw [List.map_map]
    rfl
  rw [hframe, h.events, ← hframe]

theorem accomplished (h : Flagged s s') (ref : Ref) : s'.accomplished ref = s.accomplished ref := by
  have hany : ∀ events : List LiveEvent, (events.any fun event => event.id == ref.id && event.accomplish) =
      (events.map LiveEvent.core).any fun core => core.1.1 == ref.id && core.2 := by
    intro events
    rw [List.any_map]
    rfl
  unfold LiveScene.accomplished
  rw [hany, hany, h.events]

theorem sound (h : Flagged s s') (hs : Sound s) : Sound s' := by
  refine h.framed.sound hs (fun c t ht => ?_) fun id c hc => ?_
  · rw [h.tiles] at ht
    rw [hs.block c t ht]
    exact (LiveScene.highest_congr fun object _ => h.accomplished object.ref).symm
  · rw [h.members] at hc
    exact h.framed.moveable (hs.members id c hc)

/-- A change of an event that the tiles do not ask about. -/
theorem updateEvent (s : LiveScene) (id : ℤ) {f : LiveEvent → LiveEvent} (hf : ∀ event, (f event).core = event.core) :
    Flagged s (s.updateEvent id f) := by
  refine ⟨rfl, rfl, rfl, rfl, le_refl _, ?_⟩
  unfold LiveScene.updateEvent
  rw [List.map_map]
  refine List.map_congr_left fun event _ => ?_
  simp only [Function.comp_apply]
  split_ifs
  · exact hf event
  · rfl

end Flagged

/-! ### An event is accomplished -/

namespace LiveScene

/-- `event.accomplish = true` -/
def noteAccomplish (s : LiveScene) (id : ℤ) : LiveScene := s.updateEvent id fun event => { event with accomplish := true }

/-- The scene after an event has been accomplished. -/
def accomplish (s : LiveScene) (event : LiveEvent) : LiveScene :=
  (s.noteAccomplish event.id).resetAt (footprint event.base.toObjectBase event.coord)

theorem accomplish_tiles {event : LiveEvent} {c : Coord} {t : LiveTile} (ht : s.tiles c = some t) :
    (s.accomplish event).tiles c =
      some (if c ∈ footprint event.base.toObjectBase event.coord then (s.noteAccomplish event.id).reset t else t) :=
  resetAt_tiles ht

theorem accomplished_accomplish {event : LiveEvent} (hmem : event ∈ s.events) {ref : Ref} :
    (s.accomplish event).accomplished ref ↔
      s.accomplished ref ∨ ref.objectCategory = .event ∧ event.id = ref.id := by
  rw [accomplished_iff, accomplished_iff, ← and_or_left]
  refine and_congr_right fun _ => ?_
  constructor
  · rintro ⟨event', hmem', hid, haccomplish⟩
    obtain ⟨old, hold, rfl⟩ := mem_updateEvent hmem'
    by_cases hsame : old.id = event.id
    · rw [if_pos hsame] at hid
      exact .inr (hsame.symm.trans hid)
    · rw [if_neg hsame] at hid haccomplish
      exact .inl ⟨old, hold, hid, haccomplish⟩
  · have hupdate : ∀ old ∈ s.events, (if old.id = event.id then { old with accomplish := true } else old) ∈
        (s.accomplish event).events := fun old hold => List.mem_map.2 ⟨old, hold, rfl⟩
    rintro (⟨old, hold, hid, haccomplish⟩ | hid)
    · refine ⟨_, hupdate old hold, ?_, ?_⟩
      · split_ifs <;> exact hid
      · split_ifs
        · rfl
        · exact haccomplish
    · refine ⟨_, hupdate event hmem, ?_, ?_⟩
      · rw [if_pos rfl]
        exact hid
      · rw [if_pos rfl]

/-- No object is more in the way. -/
theorem effective_accomplish {event : LiveEvent} (hmem : event ∈ s.events) (object : Laid) :
    ((s.accomplish event).effective object).value ≤ (s.effective object).value := by
  unfold effective
  split_ifs with hnew hold hold
  · exact le_refl _
  · exact Nat.zero_le _
  · exact absurd ⟨(accomplished_accomplish hmem).2 (.inl hold.1), hold.2⟩ hnew
  · exact le_refl _

end LiveScene

/-- What the tiles under the event have to do with it. -/
theorem Sound.framed_accomplish (hs : Sound s) {event : LiveEvent} (hmem : event ∈ s.events) :
    Framed s (s.accomplish event) := by
  refine ⟨⟨rfl, rfl, fun c t ht => ?_, fun c hc => ?_⟩, le_refl _, ?_⟩
  · refine ⟨_, LiveScene.accomplish_tiles ht, ?_, ?_⟩
    · split_ifs <;> rfl
    · split_ifs
      · rw [hs.block c t ht]
        exact LiveScene.highest_mono fun object _ => LiveScene.effective_accomplish hmem object
      · exact le_refl _
  · have hnone : (s.noteAccomplish event.id).tiles c = none := hc
    simp [LiveScene.accomplish, LiveScene.resetAt, hnone]
  · unfold LiveScene.accomplish LiveScene.noteAccomplish LiveScene.updateEvent LiveScene.resetAt
    rw [List.map_map]
    refine List.map_congr_left fun old _ => ?_
    simp only [Function.comp_apply]
    split_ifs <;> rfl

/-- **An event is accomplished.** Its tiles are reset, and the event lies on no others. -/
theorem Sound.accomplish (hs : Sound s) {event : LiveEvent} (hmem : event ∈ s.events) : Sound (s.accomplish event) := by
  have hframed := hs.framed_accomplish hmem
  refine hframed.sound hs (fun c t ht => ?_) fun id c hc => hframed.moveable (hs.members id c hc)
  obtain ⟨t₀, ht₀, -⟩ := hframed.back ht
  obtain rfl := Option.some.inj ((LiveScene.accomplish_tiles ht₀).symm.trans ht)
  split_ifs with hc
  · rfl
  · rw [hs.block c t₀ ht₀]
    refine (LiveScene.highest_congr fun object hobject => ?_).symm
    refine Bool.eq_iff_iff.2 ((LiveScene.accomplished_accomplish hmem).trans (or_iff_left ?_))
    rintro ⟨hevent, hid⟩
    obtain ⟨event', hmem', hid', hcover⟩ := hs.laid c t₀ ht₀ object hobject hevent
    obtain rfl := List.inj_on_of_nodup_map hs.ids hmem' hmem (hid'.trans hid.symm)
    exact hc hcover

end Slam.Grid
