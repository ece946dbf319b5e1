import Slam.Scene.Creator

/-!
# `tiles_event_generator`: which events find a place

The distance that is asked for goes down to zero and not below, and at zero a corner is still refused that is
in the row or the column of an event that has its coordinates. So an event finds a place exactly if some free
rectangle has its corner in a row and a column of its own (`HasApart`), which is more than room
(`HasRoom`). Events with coordinates are laid without such a question, but their tiles have to be on the map.

* `placeEvent_spec`, `placeEvent_eq_none`: one event;
* `Located`: what holds between two events, and `foldlM_locateEvent` for all of them;
* `events_placed_iff`: when every event is placed.
-/

namespace Slam.Grid

open Slam.Astar Slam.Random

namespace Making

variable {map : MapRow} {order : Pairs}

/-! ### One event -/

theorem mem_tilesAvailableGrid {m : Making} {rect : ObjectBase} {corner : Coord} :
    corner ∈ m.tilesAvailableGrid map rect ↔
      map.validCoord corner ∧ ∀ c ∈ footprint rect corner, map.validCoord c ∧ m.tiles c = none := by
  unfold tilesAvailableGrid tilesCheckGrid
  rw [List.mem_filter, mem_grid]
  refine and_congr_right fun hcorner => ?_
  rw [validCoord_iff] at hcorner
  simp only [List.all_eq_true, Bool.and_eq_true, decide_eq_true_eq, Option.isNone_iff_eq_none, and_assoc]
  constructor
  · intro hall c hc
    obtain ⟨hy, hx, hnone⟩ := hall c hc
    rw [mem_footprint] at hc
    refine ⟨validCoord_iff.2 ?_, hnone⟩
    omega
  · intro hall c hc
    obtain ⟨hvalid, hnone⟩ := hall c hc
    rw [validCoord_iff] at hvalid
    exact ⟨hvalid.2.2, hvalid.1.2, hnone⟩

theorem corner_mem_footprint (row : ObjectRow) (corner : Coord) : corner ∈ footprint row.base corner := by
  have hwidth := row.width_pos
  have hheight := row.height_pos
  rw [mem_footprint]
  omega

/-- Some free rectangle of the event's size. -/
def HasRoom (map : MapRow) (m : Making) (event : Event) : Prop :=
  ∃ corner, corner ∈ m.tilesAvailableGrid map event.row.base

/-- The corner is in the row or the column of no event that has its coordinates. -/
def Apart (m : Making) (corner : Coord) : Prop :=
  ∀ event ∈ m.events, ∀ c, event.coord = some c → c.x ≠ corner.x ∧ c.y ≠ corner.y

/-- Some free rectangle of the event's size, and apart from the other events. -/
def HasApart (map : MapRow) (m : Making) (event : Event) : Prop :=
  ∃ corner ∈ m.tilesAvailableGrid map event.row.base, m.Apart corner

theorem eventDistance_iff {m : Making} {coord : Coord} {distance : ℤ} :
    m.eventDistance coord distance ↔
      ∀ event ∈ m.events, ∀ c, event.coord = some c → distance < |c.x - coord.x| ∧ distance < |c.y - coord.y| := by
  unfold eventDistance
  rw [List.all_eq_true]
  refine forall₂_congr fun event _ => ?_
  rcases event.coord with _ | c
  · simp
  · simp only [Bool.not_eq_true', Bool.or_eq_false_iff, decide_eq_false_iff_not, Option.some.injEq, forall_eq']
    omega

/-- The last distance that is tried asks for a row and a column of its own. -/
theorem eventDistance_zero {m : Making} {coord : Coord} : m.eventDistance coord 0 ↔ m.Apart coord := by
  rw [eventDistance_iff]
  unfold Apart
  refine forall₂_congr fun event _ => forall₂_congr fun c _ => ?_
  rw [abs_pos, abs_pos, sub_ne_zero, sub_ne_zero]

theorem apart_of_eventDistance {m : Making} {coord : Coord} (distance : ℕ) (h : m.eventDistance coord distance) :
    m.Apart coord := by
  rw [← eventDistance_zero]
  rw [eventDistance_iff] at h ⊢
  intro event hmem c hc
  have hfar := h event hmem c hc
  omega

/-- The candidates that are drawn: one that keeps its distance is found if there is one. -/
theorem tryGrids_spec (order : Pairs) (m : Making) (distance : ℤ) {turns : ℕ} {t : List (ℕ × Coord)} (seed : ℤ)
    (hturns : t.length ≤ turns) (hkeys : (t.map Prod.fst).Nodup) :
    (∀ coord, (m.tryGrids order distance turns t seed).1 = some coord →
      (∃ i, (i, coord) ∈ t) ∧ m.eventDistance coord distance) ∧
    ((m.tryGrids order distance turns t seed).1 = none → ∀ entry ∈ t, m.eventDistance entry.2 distance = false) := by
  induction turns generalizing t seed with
  | zero =>
    obtain rfl : t = [] := List.length_eq_zero_iff.1 (Nat.le_zero.1 hturns)
    simp [tryGrids]
  | succ turns ih =>
    rcases eq_or_ne t [] with rfl | hne
    · simp [tryGrids, tableSize]
    obtain ⟨⟨i, c⟩, hmem, seed', hdrawn⟩ := tableRandom_visit order hne seed
    have hsize : 0 < tableSize t := by
      unfold tableSize
      exact_mod_cast List.length_pos_iff.2 hne
    unfold tryGrids
    rw [if_pos hsize, hdrawn]
    by_cases hfar : m.eventDistance c distance
    · simp only [if_pos hfar]
      refine ⟨fun coord hcoord => ?_, fun hnone => absurd hnone (by simp)⟩
      obtain rfl : c = coord := Option.some.inj hcoord
      exact ⟨⟨i, hmem⟩, hfar⟩
    · simp only [if_neg hfar]
      have hshorter : (t.filter fun entry => entry.1 ≠ i).length < t.length :=
        List.length_filter_lt_length_iff_exists.2 ⟨(i, c), hmem, by simp⟩
      obtain ⟨hfound, hnone⟩ := ih seed' (t := t.filter fun entry => entry.1 ≠ i) (by omega)
        (hkeys.sublist (List.filter_sublist.map Prod.fst))
      refine ⟨fun coord hcoord => ?_, fun hrest entry hentry => ?_⟩
      · obtain ⟨⟨j, hj⟩, hdistance⟩ := hfound coord hcoord
        exact ⟨⟨j, (List.mem_filter.1 hj).1⟩, hdistance⟩
      · by_cases hkey : entry.1 = i
        · -- a key comes once, so the entry is the one that was drawn
          obtain rfl : entry = (i, c) := List.inj_on_of_nodup_map hkeys hentry hmem hkey
          simpa using hfar
        · exact hnone hrest entry (List.mem_filter.2 ⟨hentry, by simpa using hkey⟩)

/-- One try at a distance: either a free rectangle that keeps it is found, or there is none. -/
theorem tryDistance_spec (map : MapRow) (order : Pairs) (m : Making) (event : Event) (distance : ℤ) :
    (∃ corner seed, m.tryDistance map order event distance = (some corner, { m with seed }) ∧
        corner ∈ m.tilesAvailableGrid map event.row.base ∧ m.eventDistance corner distance) ∨
      ∃ seed, m.tryDistance map order event distance = (none, { m with seed }) ∧
        ∀ corner ∈ m.tilesAvailableGrid map event.row.base, m.eventDistance corner distance = false := by
  unfold tryDistance
  obtain ⟨hfound, hnone⟩ := tryGrids_spec order m distance m.seed
    (t := numbered (m.tilesAvailableGrid map event.row.base)) le_rfl (nodup_numbered _)
  rcases htry : m.tryGrids order distance (numbered (m.tilesAvailableGrid map event.row.base)).length
    (numbered (m.tilesAvailableGrid map event.row.base)) m.seed with ⟨_ | corner, seed⟩
  · rw [htry] at hnone
    refine .inr ⟨seed, by simp only [htry], fun corner hcorner => ?_⟩
    obtain ⟨i, hi⟩ := exists_numbered hcorner
    exact hnone rfl (i, corner) hi
  · rw [htry] at hfound
    obtain ⟨⟨i, hi⟩, hdistance⟩ := hfound corner rfl
    exact .inl ⟨corner, seed, by simp only [htry], mem_of_numbered hi, hdistance⟩

theorem Filled.tiles_ne_none {object : Laid} {area : List Coord} {m m' : Making} (hfilled : Filled object area m m')
    (c : Coord) : m'.tiles c ≠ none ↔ m.tiles c ≠ none ∨ c ∈ area := by
  by_cases hmem : c ∈ area
  · obtain ⟨t, ht, -⟩ := hfilled.objects c hmem
    simp [ht, hmem]
  · simp [hfilled.others c hmem, hmem]

/-- What placing an event comes to. -/
structure Settled (map : MapRow) (event : Event) (corner : Coord) (m m' : Making) : Prop where
  events : m'.events = (m.setCoord event.id corner).events
  filled : ∀ c, m'.tiles c ≠ none ↔ m.tiles c ≠ none ∨ c ∈ footprint event.row.base corner
  free : corner ∈ m.tilesAvailableGrid map event.row.base

/-- An event is settled in a free rectangle. -/
theorem settle_spec (order : Pairs) {m : Making} {event : Event} {corner : Coord} (seed : ℤ)
    (hcorner : corner ∈ m.tilesAvailableGrid map event.row.base) :
    ∃ m', settle map order { m with seed } event corner = some m' ∧ Settled map event corner m m' := by
  obtain ⟨m', hfill, hfilled⟩ := @tilesFill_spec map order event.laid event.row.requireTile
    (setCoord { m with seed } event.id corner) corner fun c hc => ((mem_tilesAvailableGrid.1 hcorner).2 c hc).1
  exact ⟨m', hfill, hfilled.events, hfilled.tiles_ne_none, hcorner⟩

/-- **One event.** If some free rectangle is apart from the other events, the event is placed in such a one. -/
theorem placeEvent_spec (order : Pairs) {m : Making} {event : Event} (hapart : HasApart map m event) (distance : ℕ) :
    ∃ corner m', placeEvent map order event distance m = some m' ∧ Settled map event corner m m' := by
  induction distance generalizing m with
  | zero =>
    unfold placeEvent
    rcases m.tryDistance_spec map order event 0 with
      ⟨corner, seed, htry, hcorner, -⟩ | ⟨seed, htry, hnone⟩
    · rw [htry]
      obtain ⟨m', hsettled, hm'⟩ := settle_spec order seed hcorner
      exact ⟨corner, m', hsettled, hm'⟩
    · obtain ⟨corner, hcorner, hfar⟩ := hapart
      rw [← eventDistance_zero, hnone corner hcorner] at hfar
      exact absurd hfar (by decide)
  | succ distance ih =>
    unfold placeEvent
    rcases m.tryDistance_spec map order event (distance + 1) with
      ⟨corner, seed, htry, hcorner, -⟩ | ⟨seed, htry, -⟩
    · rw [htry]
      obtain ⟨m', hsettled, hm'⟩ := settle_spec order seed hcorner
      exact ⟨corner, m', hsettled, hm'⟩
    · rw [htry]
      obtain ⟨corner, m', hplaced, hm'⟩ := ih (m := { m with seed }) hapart
      exact ⟨corner, m', hplaced, hm'.events, hm'.filled, hm'.free⟩

/-- If there is no such rectangle, the assertion fails. -/
theorem placeEvent_eq_none {m : Making} {event : Event} (hapart : ¬ HasApart map m event) (distance : ℕ) :
    placeEvent map order event distance m = none := by
  induction distance generalizing m with
  | zero =>
    unfold placeEvent
    rcases m.tryDistance_spec map order event 0 with
      ⟨corner, seed, -, hcorner, hfar⟩ | ⟨seed, htry, -⟩
    · exact absurd ⟨corner, hcorner, eventDistance_zero.1 hfar⟩ hapart
    · rw [htry]
  | succ distance ih =>
    unfold placeEvent
    rcases m.tryDistance_spec map order event (distance + 1) with
      ⟨corner, seed, -, hcorner, hfar⟩ | ⟨seed, htry, -⟩
    · exact absurd ⟨corner, hcorner, apart_of_eventDistance (distance + 1) (by exact_mod_cast hfar)⟩ hapart
    · rw [htry]
      exact ih hapart

/-! ### All events -/

/-- A condition on the scene whenever an event looks for a place, in the second loop from here on. -/
def AtEach (map : MapRow) (order : Pairs) (P : Making → Event → Prop) : List Event → Making → Prop
  | [], _ => True
  | event :: events, m =>
    (event.coord = none → P m event) ∧
      ∀ m', m.locateEvent map order event = some m' → AtEach map order P events m'

theorem atEach_cons {P : Making → Event → Prop} {event : Event} {events : List Event} {m : Making} :
    AtEach map order P (event :: events) m ↔
      (event.coord = none → P m event) ∧
        ∀ m', m.locateEvent map order event = some m' → AtEach map order P events m' := Iff.rfl

theorem AtEach.mono {P Q : Making → Event → Prop} (hPQ : ∀ m event, P m event → Q m event) {events : List Event}
    {m : Making} (h : AtEach map order P events m) : AtEach map order Q events m := by
  induction events generalizing m with
  | nil => trivial
  | cons event events ih => exact ⟨fun hnone => hPQ m event (h.1 hnone), fun m' hm' => ih (h.2 m' hm')⟩

/-- What is known of the events, given what they were created from: those with coordinates have kept them, all
that have coordinates are on the map and on tiles that are there, and an event that was given none overlaps no
other. -/
structure Located (map : MapRow) (given : List EventSpec) (m : Making) : Prop where
  kept : List.Forall₂ (fun t event => event.row = t.row ∧ ∀ c, t.coord = some c → event.coord = some c) given m.events
  inside : ∀ event ∈ m.events, ∀ c, event.coord = some c →
    ∀ d ∈ footprint event.row.base c, map.validCoord d ∧ m.tiles d ≠ none
  apart : (given.zip m.events).Pairwise fun a b => a.1.coord = none ∨ b.1.coord = none →
    ∀ c d, a.2.coord = some c → b.2.coord = some d →
      (footprint a.2.row.base c).Disjoint (footprint b.2.row.base d)

theorem mem_setCoord {m : Making} {id : ℕ} {corner : Coord} {event : Event}
    (hmem : event ∈ (m.setCoord id corner).events) :
    (event ∈ m.events ∧ event.id ≠ id) ∨
      ∃ old ∈ m.events, old.id = id ∧ event = { old with coord := some corner } := by
  obtain ⟨old, hold, rfl⟩ := List.mem_map.1 hmem
  by_cases hid : old.id = id
  · rw [if_pos hid]
    exact .inr ⟨old, hold, hid, rfl⟩
  · rw [if_neg hid]
    exact .inl ⟨hold, hid⟩

theorem mem_setCoord_of_ne {m : Making} {id : ℕ} {corner : Coord} {event : Event} (hmem : event ∈ m.events)
    (hid : event.id ≠ id) : event ∈ (m.setCoord id corner).events :=
  List.mem_map.2 ⟨event, hmem, if_neg hid⟩

/-- An event is known by its id. -/
theorem eq_of_id_eq {m : Making} {event event' : Event} (hmem : event ∈ m.events) (hmem' : event' ∈ m.events)
    (hid : event.id = event'.id) : event = event' :=
  List.inj_on_of_nodup_map m.events_nodup hmem hmem' hid

/-- A free rectangle overlaps no event that has its coordinates. -/
theorem Located.disjoint_free {given : List EventSpec} {m : Making} (hm : Located map given m) {rect : ObjectBase}
    {corner : Coord} (hfree : corner ∈ m.tilesAvailableGrid map rect) {event : Event} (hmem : event ∈ m.events)
    {c : Coord} (hc : event.coord = some c) : (footprint event.row.base c).Disjoint (footprint rect corner) :=
  fun d hd hd' => (hm.inside event hmem c hc d hd).2 ((mem_tilesAvailableGrid.1 hfree).2 d hd').2

/-- No event is there twice. -/
theorem Located.zip_ids {given : List EventSpec} {m : Making} (hm : Located map given m) :
    (given.zip m.events).Pairwise fun a b => a.2.id ≠ b.2.id := by
  have hnodup : ((given.zip m.events).map (Event.id ∘ Prod.snd)).Nodup := by
    rw [← List.map_map, List.map_snd_zip hm.kept.length_eq.ge]
    exact m.events_nodup
  exact List.pairwise_map.1 hnodup

/-- An event that is settled overlaps no other, and nothing else changes. -/
theorem Located.settled {given : List EventSpec} {m m' : Making} (hm : Located map given m) {event : Event}
    (hevent : event ∈ m.events) (hnone : event.coord = none) {corner : Coord}
    (hsettled : Settled map event corner m m') : Located map given m' where
  kept := by
    rw [hsettled.events]
    refine List.forall₂_map_right_iff.2 ?_
    refine List.forall₂_iff_get.2 ⟨hm.kept.length_eq, fun i hi hi' => ?_⟩
    have hkept := hm.kept.get hi hi'
    split_ifs with hid
    · refine ⟨hkept.1, fun c hc => ?_⟩
      have hsame := eq_of_id_eq (List.get_mem m.events ⟨i, hi'⟩) hevent hid
      have hcoord := hkept.2 c hc
      rw [hsame, hnone] at hcoord
      exact absurd hcoord (by simp)
    · exact hkept
  inside := by
    intro e he c hc d hd
    rw [hsettled.events] at he
    rw [hsettled.filled d]
    rcases mem_setCoord he with ⟨hold, -⟩ | ⟨old, hold, hid, rfl⟩
    · obtain ⟨hvalid, htile⟩ := hm.inside e hold c hc d hd
      exact ⟨hvalid, .inl htile⟩
    · obtain rfl := eq_of_id_eq hold hevent hid
      obtain rfl : corner = c := Option.some.inj hc
      exact ⟨((mem_tilesAvailableGrid.1 hsettled.free).2 d hd).1, .inr hd⟩
  apart := by
    have hzip : given.zip m'.events = (given.zip m.events).map fun a =>
        (a.1, if a.2.id = event.id then { a.2 with coord := some corner } else a.2) := by
      rw [hsettled.events]
      exact List.zip_map_right
    rw [hzip, List.pairwise_map]
    refine (hm.apart.and hm.zip_ids).imp_of_mem fun {a b} ha hb hab => ?_
    obtain ⟨hapart, hne⟩ := hab
    have ha' := (List.of_mem_zip ha).2
    have hb' := (List.of_mem_zip hb).2
    dsimp only
    intro hgiven c d
    by_cases hida : a.2.id = event.id
    · have hidb : ¬ b.2.id = event.id := fun hid => hne (hida.trans hid.symm)
      rw [if_pos hida, if_neg hidb]
      intro hc hd
      have hsame := eq_of_id_eq ha' hevent hida
      obtain rfl : corner = c := Option.some.inj hc
      rw [hsame]
      exact (hm.disjoint_free hsettled.free hb' hd).symm
    · rw [if_neg hida]
      by_cases hidb : b.2.id = event.id
      · rw [if_pos hidb]
        intro hc hd
        have hsame := eq_of_id_eq hb' hevent hidb
        obtain rfl : corner = d := Option.some.inj hd
        rw [hsame]
        exact hm.disjoint_free hsettled.free ha' hc
      · rw [if_neg hidb]
        exact hapart hgiven c d

/-- The events that have no place yet are still to come. -/
structure Pending (events : List Event) (m : Making) : Prop where
  mem : ∀ event ∈ events, event ∈ m.events
  nodup : (events.map Event.id).Nodup
  rest : ∀ event ∈ m.events, event.coord = none → event ∈ events

theorem Pending.skip {event : Event} {events : List Event} {m : Making} {c : Coord}
    (h : Pending (event :: events) m) (hc : event.coord = some c) : Pending events m where
  mem e he := h.mem e (List.mem_cons_of_mem event he)
  nodup := h.nodup.of_cons
  rest e he hnone := by
    rcases List.mem_cons.1 (h.rest e he hnone) with rfl | hmem
    · rw [hc] at hnone
      exact absurd hnone (by simp)
    · exact hmem

theorem Pending.settled {event : Event} {events : List Event} {m m' : Making} (h : Pending (event :: events) m)
    {corner : Coord} (hsettled : Settled map event corner m m') : Pending events m' where
  mem e he := by
    rw [hsettled.events]
    refine mem_setCoord_of_ne (h.mem e (List.mem_cons_of_mem event he)) fun hid => ?_
    exact (List.nodup_cons.1 h.nodup).1 (hid ▸ List.mem_map_of_mem he)
  nodup := h.nodup.of_cons
  rest e he hnone := by
    rw [hsettled.events] at he
    rcases mem_setCoord he with ⟨hold, hid⟩ | ⟨old, -, -, rfl⟩
    · rcases List.mem_cons.1 (h.rest e hold hnone) with rfl | hmem
      · exact absurd rfl hid
      · exact hmem
    · exact absurd hnone (by simp)

/-- The second loop: it comes to its end exactly if there is a rectangle apart from the others each time. -/
theorem foldlM_locateEvent {given : List EventSpec} {events : List Event} {m : Making} (hm : Located map given m)
    (hpending : Pending events m) :
    ((∃ m', events.foldlM (locateEvent map order) m = some m') ↔ AtEach map order (HasApart map) events m) ∧
      ∀ m', events.foldlM (locateEvent map order) m = some m' →
        Located map given m' ∧ ∀ event ∈ m'.events, event.coord.isSome := by
  induction events generalizing m with
  | nil =>
    refine ⟨iff_of_true ⟨m, rfl⟩ trivial, fun m' hm' => ?_⟩
    obtain rfl : m = m' := Option.some.inj hm'
    refine ⟨hm, fun event hmem => ?_⟩
    rw [Option.isSome_iff_ne_none]
    exact fun hnone => absurd (hpending.rest event hmem hnone) List.not_mem_nil
  | cons event events ih =>
    simp only [List.foldlM_cons]
    cases hcoord : event.coord with
    | some c =>
      have hlocate : m.locateEvent map order event = some m := by
        unfold locateEvent
        rw [hcoord]
      have heach : AtEach map order (HasApart map) (event :: events) m ↔ AtEach map order (HasApart map) events m := by
        rw [atEach_cons]
        simp [hcoord, hlocate]
      rw [hlocate, heach]
      exact ih hm (hpending.skip hcoord)
    | none =>
      have hlocate : m.locateEvent map order event =
          placeEvent map order event (max flagEventDistance 0).toNat m := by
        unfold locateEvent
        rw [hcoord]
      by_cases hapart : HasApart map m event
      · obtain ⟨corner, m₁, hplaced, hsettled⟩ :=
          placeEvent_spec order hapart (max flagEventDistance 0).toNat
        have heach : AtEach map order (HasApart map) (event :: events) m ↔
            AtEach map order (HasApart map) events m₁ := by
          rw [atEach_cons]
          simp [hapart, hlocate, hplaced]
        rw [hlocate, hplaced, heach]
        exact ih (hm.settled (hpending.mem event List.mem_cons_self) hcoord hsettled) (hpending.settled hsettled)
      · rw [hlocate, placeEvent_eq_none hapart]
        refine ⟨iff_of_false (by simp) fun heach => hapart (heach.1 hcoord), fun m' hm' => ?_⟩
        exact absurd hm' (by simp)

/-! ### The events with coordinates -/

/-- The tiles of the events with coordinates are on the map. -/
def FixedInside (map : MapRow) (given : List EventSpec) : Prop :=
  ∀ t ∈ given, ∀ c, t.coord = some c → ∀ d ∈ footprint t.row.base c, map.validCoord d

/-- Creating the events: they come one after another, as they were given. -/
theorem foldlM_eventGenerate {given : List EventSpec} {m m' : Making}
    (hgen : given.foldlM (eventGenerate map) m = some m') :
    m'.tiles = m.tiles ∧
      m'.events.map (fun event => (event.row, event.coord)) =
        m.events.map (fun event => (event.row, event.coord)) ++ given.map fun t => (t.row, t.coord) := by
  induction given generalizing m with
  | nil =>
    obtain rfl : m = m' := Option.some.inj hgen
    simp
  | cons t given ih =>
    rw [List.foldlM_cons] at hgen
    obtain ⟨m₁, hfirst, hrest⟩ := Option.bind_eq_some_iff.1 hgen
    obtain ⟨htiles, hevents⟩ := ih hrest
    unfold eventGenerate at hfirst
    split_ifs at hfirst
    obtain rfl := Option.some.inj hfirst
    refine ⟨htiles, ?_⟩
    rw [hevents]
    simp [createEventObject]

theorem exists_eventGenerate {given : List EventSpec} (hvalid : ∀ t ∈ given, ∀ c, t.coord = some c → map.validCoord c)
    (m : Making) : ∃ m', given.foldlM (eventGenerate map) m = some m' := by
  induction given generalizing m with
  | nil => exact ⟨m, rfl⟩
  | cons t given ih =>
    have hcoord : t.coord.all map.validCoord := by
      cases hc : t.coord with
      | none => rfl
      | some c => exact hvalid t List.mem_cons_self c hc
    obtain ⟨m', hrest⟩ := ih (fun t' ht' => hvalid t' (List.mem_cons_of_mem t ht')) (m.createEventObject t.row t.coord)
    refine ⟨m', ?_⟩
    rw [List.foldlM_cons]
    unfold eventGenerate
    rw [if_pos hcoord]
    exact hrest

/-- The first loop: the events stay as they are, and those with coordinates are laid. -/
theorem foldlM_fillEvent {events : List Event} {m m' : Making}
    (hfill : events.foldlM (fillEvent map order) m = some m') :
    m'.events = m.events ∧ (∀ d, m.tiles d ≠ none → m'.tiles d ≠ none) ∧
      ∀ event ∈ events, ∀ c, event.coord = some c →
        ∀ d ∈ footprint event.row.base c, map.validCoord d ∧ m'.tiles d ≠ none := by
  induction events generalizing m with
  | nil =>
    obtain rfl : m = m' := Option.some.inj hfill
    exact ⟨rfl, fun _ h => h, fun event hmem => absurd hmem List.not_mem_nil⟩
  | cons event events ih =>
    rw [List.foldlM_cons] at hfill
    obtain ⟨m₁, hfirst, hrest⟩ := Option.bind_eq_some_iff.1 hfill
    obtain ⟨hevents, htiles, hlaid⟩ := ih hrest
    unfold fillEvent at hfirst
    cases hcoord : event.coord with
    | none =>
      rw [hcoord] at hfirst
      obtain rfl : m = m₁ := Option.some.inj hfirst
      refine ⟨hevents, htiles, fun e he c hc => ?_⟩
      rcases List.mem_cons.1 he with rfl | hmem
      · rw [hcoord] at hc
        exact absurd hc (by simp)
      · exact hlaid e hmem c hc
    | some corner =>
      rw [hcoord] at hfirst
      have hvalid := validCoord_of_tilesFill hfirst
      obtain ⟨m₂, hsome, hfilled⟩ := tilesFill_spec order event.row.requireTile m hvalid
      obtain rfl : m₂ = m₁ := by
        simp only at hfirst
        rw [hsome] at hfirst
        exact Option.some.inj hfirst
      refine ⟨hevents.trans hfilled.events, fun d hd => htiles d ((hfilled.tiles_ne_none d).2 (.inl hd)),
        fun e he c hc d hd => ?_⟩
      rcases List.mem_cons.1 he with rfl | hmem
      · obtain rfl : corner = c := by
          rw [hcoord] at hc
          exact Option.some.inj hc
        exact ⟨hvalid d hd, htiles d ((hfilled.tiles_ne_none d).2 (.inr hd))⟩
      · exact hlaid e hmem c hc d hd

theorem exists_fillEvent (map : MapRow) (order : Pairs) (events : List Event)
    (hvalid : ∀ event ∈ events, ∀ c, event.coord = some c → ∀ d ∈ footprint event.row.base c, map.validCoord d)
    (m : Making) : ∃ m', events.foldlM (fillEvent map order) m = some m' := by
  induction events generalizing m with
  | nil => exact ⟨m, rfl⟩
  | cons event events ih =>
    have hrest := fun m₁ => ih (fun e he => hvalid e (List.mem_cons_of_mem event he)) m₁
    simp only [List.foldlM_cons]
    unfold fillEvent
    cases hcoord : event.coord with
    | none => exact hrest m
    | some corner =>
      obtain ⟨m₁, hfill, -⟩ := @tilesFill_spec map order event.laid event.row.requireTile m corner
        (hvalid event List.mem_cons_self corner hcoord)
      obtain ⟨m', hm'⟩ := hrest m₁
      refine ⟨m', ?_⟩
      simp only [hfill]
      exact hm'

/-- The entries in the order in which their events are created. -/
def created (order : Pairs) (stickEvents eventsBase : List EventSpec) : List EventSpec :=
  order.visit stickEvents ++ order.visit eventsBase

theorem fixedEvents_eq (m : Making) (stickEvents eventsBase : List EventSpec) :
    m.fixedEvents map order stickEvents eventsBase =
      ((created order stickEvents eventsBase).foldlM (eventGenerate map) m).bind fun m =>
        (order.visit m.events).foldlM (fillEvent map order) m := by
  unfold fixedEvents eventGenerator created
  rw [List.foldlM_append]
  simp only [Option.bind_eq_bind, Option.bind_assoc]

theorem validCoord_of_fixedInside {given : List EventSpec} (hinside : FixedInside map given) :
    ∀ t ∈ given, ∀ c, t.coord = some c → map.validCoord c := fun t ht c hc =>
  hinside t ht c hc c (corner_mem_footprint t.row.toObjectRow c)

/-- Events whose tiles are on the map can be laid. -/
theorem exists_fixedEvents {stickEvents eventsBase : List EventSpec}
    (hinside : FixedInside map (created order stickEvents eventsBase)) (m : Making) :
    ∃ m₁, m.tilesInit.fixedEvents map order stickEvents eventsBase = some m₁ := by
  obtain ⟨m₀, hgen⟩ := exists_eventGenerate (validCoord_of_fixedInside hinside) m.tilesInit
  have hevents := (foldlM_eventGenerate hgen).2
  obtain ⟨m₁, hfill⟩ := exists_fillEvent map order (order.visit m₀.events) (by
    intro event hmem c hc
    have hpair : (event.row, event.coord) ∈ m₀.events.map fun event => (event.row, event.coord) :=
      List.mem_map_of_mem ((order.visit_perm m₀.events).mem_iff.1 hmem)
    rw [hevents] at hpair
    obtain ⟨t, ht, heq⟩ := List.mem_map.1 hpair
    obtain ⟨hrow, hcoord⟩ := Prod.mk.inj heq
    rw [← hrow]
    exact hinside t ht c (hcoord.trans hc)) m₀
  refine ⟨m₁, ?_⟩
  rw [fixedEvents_eq, hgen]
  exact hfill

/-- What is known when the events with coordinates have been laid. -/
theorem fixedEvents_spec {stickEvents eventsBase : List EventSpec} {m m₁ : Making}
    (hfixed : m.tilesInit.fixedEvents map order stickEvents eventsBase = some m₁) :
    FixedInside map (created order stickEvents eventsBase) ∧
      Located map (created order stickEvents eventsBase) m₁ ∧ Pending (order.visit m₁.events) m₁ := by
  rw [fixedEvents_eq] at hfixed
  obtain ⟨m₀, hgen, hfill⟩ := Option.bind_eq_some_iff.1 hfixed
  obtain ⟨hevents, -, hlaid⟩ := foldlM_fillEvent hfill
  have hgiven : m₁.events.map (fun event => (event.row, event.coord)) =
      (created order stickEvents eventsBase).map fun t => (t.row, t.coord) := by
    rw [hevents]
    exact (foldlM_eventGenerate hgen).2
  generalize created order stickEvents eventsBase = given at hgiven
  have hsame : List.Forall₂ (fun t event => event.row = t.row ∧ event.coord = t.coord) given m₁.events := by
    have hpairs : List.Forall₂ Eq (m₁.events.map fun event => (event.row, event.coord))
        (given.map fun t => (t.row, t.coord)) := by
      rw [hgiven, List.forall₂_eq_eq_eq]
    rw [List.forall₂_map_left_iff, List.forall₂_map_right_iff] at hpairs
    exact hpairs.flip.imp fun t event heq => Prod.mk.inj heq
  have hmem : ∀ event ∈ m₁.events, event ∈ order.visit m₀.events := by
    intro event hevent
    rw [hevents] at hevent
    exact (order.visit_perm m₀.events).mem_iff.2 hevent
  refine ⟨fun t ht c hc => ?_, ⟨?_, ?_, ?_⟩, ?_⟩
  · have hpair : (t.row, t.coord) ∈ given.map fun t => (t.row, t.coord) := List.mem_map_of_mem ht
    rw [← hgiven] at hpair
    obtain ⟨event, hevent, heq⟩ := List.mem_map.1 hpair
    obtain ⟨hrow, hcoord⟩ := Prod.mk.inj heq
    rw [← hrow]
    exact fun d hd => (hlaid event (hmem event hevent) c (hcoord.trans hc) d hd).1
  · exact hsame.imp fun t event hrow => ⟨hrow.1, fun c hc => hrow.2.trans hc⟩
  · exact fun event hevent c hc => hlaid event (hmem event hevent) c hc
  · -- no event has got coordinates that it was not given
    refine List.pairwise_of_forall_mem_list fun a ha b hb hnone c d hc hd => ?_
    have hcoord : ∀ p ∈ given.zip m₁.events, p.2.coord = p.1.coord := fun p hp =>
      ((List.forall₂_iff_zip.1 hsame).2 hp).2
    rw [hcoord a ha] at hc
    rw [hcoord b hb] at hd
    rcases hnone with hnone | hnone
    · exact absurd (hnone.symm.trans hc) (by simp)
    · exact absurd (hnone.symm.trans hd) (by simp)
  · have hperm := order.visit_perm m₁.events
    exact ⟨fun event hevent => hperm.mem_iff.1 hevent, (hperm.map Event.id).nodup_iff.2 m₁.events_nodup,
      fun event hevent _ => hperm.mem_iff.2 hevent⟩

/-- Every event has its coordinate, as `Located` says of those that have one. -/
structure PlacesAll (map : MapRow) (given : List EventSpec) (m : Making) : Prop extends Located map given m where
  coords : ∀ event ∈ m.events, event.coord.isSome

/-- **When every event is placed.** `tiles_event_generator` places all events, on the map and the random ones
overlapping nothing, exactly if the tiles of the events with coordinates are on the map, and at each moment at
which an event looks for a place some free rectangle is apart from the events that have one. That there is a
free rectangle follows from it, and not the other way around. -/
theorem events_placed_iff (map : MapRow) (order : Pairs) (m : Making) (stickEvents eventsBase : List EventSpec) :
    ((∃ m', m.tilesInit.tilesEventGenerator map order stickEvents eventsBase = some m' ∧
        PlacesAll map (created order stickEvents eventsBase) m') ↔
      FixedInside map (created order stickEvents eventsBase) ∧
        ∀ m₁, m.tilesInit.fixedEvents map order stickEvents eventsBase = some m₁ →
          AtEach map order (HasApart map) (order.visit m₁.events) m₁) ∧
      ∀ m₁, AtEach map order (HasApart map) (order.visit m₁.events) m₁ →
        AtEach map order (HasRoom map) (order.visit m₁.events) m₁ := by
  refine ⟨?_, fun m₁ hapart => hapart.mono fun _ _ ⟨corner, hcorner, _⟩ => ⟨corner, hcorner⟩⟩
  unfold tilesEventGenerator
  simp only [Option.bind_eq_bind]
  constructor
  · rintro ⟨m', hgen, -⟩
    obtain ⟨m₁, hfixed, hrest⟩ := Option.bind_eq_some_iff.1 hgen
    obtain ⟨m₂, hlocate, -⟩ := Option.bind_eq_some_iff.1 hrest
    obtain ⟨hinside, hlocated, hpending⟩ := fixedEvents_spec hfixed
    refine ⟨hinside, fun m₁' hfixed' => ?_⟩
    obtain rfl : m₁ = m₁' := Option.some.inj (hfixed.symm.trans hfixed')
    exact (foldlM_locateEvent hlocated hpending).1.1 ⟨m₂, hlocate⟩
  · rintro ⟨hinside, hapart⟩
    obtain ⟨m₁, hfixed⟩ := exists_fixedEvents hinside m
    obtain ⟨-, hlocated, hpending⟩ := fixedEvents_spec hfixed
    obtain ⟨hruns, hplaced⟩ := foldlM_locateEvent hlocated hpending
    obtain ⟨m', hlocate⟩ := hruns.2 (hapart m₁ hfixed)
    obtain ⟨hlocated', hcoords⟩ := hplaced m' hlocate
    refine ⟨m', ?_, hlocated', hcoords⟩
    simp only [hfixed, hlocate, Option.bind_some]
    rw [if_pos (by simpa using hcoords)]

/-- A floor tile, and an event of one tile. -/
def floorRow : ObjectRow where
  base := ⟨1, 1, .none, none⟩
  requireTile := false
  width_pos := by decide
  height_pos := by decide

/-- A map of one row of two tiles. -/
def strip : MapRow where
  width := 2
  height := 1
  chessboard := true
  tileObstacles := [floorRow]
  width_pos := by decide
  height_pos := by decide
  tileObstacles_ne := by decide
  tileObstacles_block := by decide

/-- A scene before anything is made. -/
def blank : Making where
  tiles _ := none
  events := []
  obstacles := []
  roads := []
  seed := 0
  eventId := 0
  obstacleId := 0
  events_le := by simp
  events_nodup := List.nodup_nil
  obstacles_le := by simp

/-- The entry of a strip, and an event without coordinates. -/
def stripEvents : List EventSpec := [⟨⟨floorRow, .entry⟩, some ⟨0, 0⟩⟩, ⟨⟨floorRow, .monster⟩, none⟩]

/-- On the strip the tile that is free is in the row of the entry. -/
theorem events_not_placed :
    ¬ ∀ (map : MapRow) (order : Pairs) (m : Making) (stickEvents eventsBase : List EventSpec),
      FixedInside map (created order stickEvents eventsBase) →
      (∀ m₁, m.tilesInit.fixedEvents map order stickEvents eventsBase = some m₁ →
        AtEach map order (HasRoom map) (order.visit m₁.events) m₁) →
      ∃ m', m.tilesInit.tilesEventGenerator map order stickEvents eventsBase = some m' ∧
        PlacesAll map (created order stickEvents eventsBase) m' := by
  intro h
  have hfree : (blank.tilesInit.fixedEvents strip Pairs.inOrder stripEvents []).map
      (fun m => (m.tilesAvailableGrid strip floorRow.base, m.events.map fun event => (event.coord, event.row.base))) =
        some ([⟨1, 0⟩], [(some ⟨0, 0⟩, floorRow.base), (none, floorRow.base)]) := by decide
  obtain ⟨m₁, hfixed, hpair⟩ := Option.map_eq_some_iff.1 hfree
  obtain ⟨hgrid, hevents⟩ := Prod.mk.inj hpair
  obtain ⟨entry, rest, hfirst, hentry, hrest⟩ := List.map_eq_cons_iff.1 hevents
  obtain ⟨event, nobody, rfl, hevent, hnobody⟩ := List.map_eq_cons_iff.1 hrest
  obtain rfl := List.map_eq_nil_iff.1 hnobody
  obtain ⟨hentryCoord, -⟩ := Prod.mk.inj hentry
  obtain ⟨heventCoord, hbase⟩ := Prod.mk.inj hevent
  have hlocate : m₁.locateEvent strip Pairs.inOrder entry = some m₁ := by
    unfold locateEvent
    rw [hentryCoord]
  have hvisit : Pairs.inOrder.visit m₁.events = [entry, event] := hfirst
  have hstuck : ¬ HasApart strip m₁ event := by
    rintro ⟨corner, hcorner, hapart⟩
    rw [hbase, hgrid, List.mem_singleton] at hcorner
    subst hcorner
    exact (hapart entry (by simp [hfirst]) ⟨0, 0⟩ hentryCoord).2 rfl
  have hroom : AtEach strip Pairs.inOrder (HasRoom strip) [entry, event] m₁ := by
    refine ⟨fun hnone => ?_, fun m₂ hm₂ => ⟨fun _ => ⟨⟨1, 0⟩, ?_⟩, fun _ _ => trivial⟩⟩
    · rw [hentryCoord] at hnone
      exact absurd hnone (by simp)
    · obtain rfl : m₁ = m₂ := Option.some.inj (hlocate.symm.trans hm₂)
      rw [hbase, hgrid]
      exact List.mem_singleton_self _
  obtain ⟨m', hgen, hplaced⟩ := h strip Pairs.inOrder blank stripEvents [] (fixedEvents_spec hfixed).1 fun m₂ hm₂ => by
    obtain rfl : m₁ = m₂ := Option.some.inj (hfixed.symm.trans hm₂)
    rw [hvisit]
    exact hroom
  unfold tilesEventGenerator at hgen
  simp only [Option.bind_eq_bind, hfixed, hvisit, Option.bind_some, List.foldlM_cons, hlocate] at hgen
  unfold locateEvent at hgen
  rw [heventCoord] at hgen
  simp [placeEvent_eq_none hstuck] at hgen

end Making

end Slam.Grid
