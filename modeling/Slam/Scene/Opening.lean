import Slam.Scene.Calls

/-!
# The tiles of a scene, from its generation on

What `generator` makes is sound: the events lie where they are recorded, each coordinate has got its tile by the
padding, and nothing that is laid after the links blocks the entry. From there on every run keeps it so.
-/

namespace Slam.Grid

open Slam.Astar Raising
open Slam.Game (EventCategory)

/-- Everything in the opposite order. -/
def Pairs.reversed : Pairs := ⟨List.reverse, List.reverse_perm⟩

namespace Making

variable {map : MapRow} {order : Pairs} {m m' : Making}

/-! ### What lies on the tiles -/

/-- Whatever lies on a tile is recorded there. -/
def AllRecorded (m : Making) : Prop := ∀ c, ∀ object ∈ m.objectsAt c, m.Recorded object c

theorem objectsAt_setTile_of_ne {c d : Coord} (hne : c ≠ d) (objects : List Laid) :
    (m.setTile d objects).objectsAt c = m.objectsAt c := by
  have htile : (m.setTile d objects).tiles c = m.tiles c := Function.update_of_ne hne _ _
  unfold objectsAt
  rw [htile]

theorem Edit.allRecorded (h : Edit map m m') (hm : m.AllRecorded) : m'.AllRecorded := by
  intro c object hobject
  have hkeeps : m.Recorded object c → m'.Recorded object c := h.recorded
  cases h with
  | seed | obstacle => exact hkeeps (hm c object hobject)
  | lay d laid hvalid hrecorded =>
    by_cases hcd : c = d
    · subst hcd
      rw [objectsAt_setTile] at hobject
      rcases List.mem_append.1 hobject with hold | hnew
      · exact hkeeps (hm c object hold)
      · obtain rfl := List.mem_singleton.1 hnew
        exact hkeeps hrecorded
    · rw [objectsAt_setTile_of_ne hcd] at hobject
      exact hkeeps (hm c object hobject)

theorem EventEdit.allRecorded (h : EventEdit map m m') (hm : m.AllRecorded) : m'.AllRecorded := by
  have hkeeps : ∀ object c, m.Recorded object c → m'.Recorded object c := fun _ _ => h.recorded
  cases h with
  | edit h => exact h.allRecorded hm
  | event | coord => exact fun c object hobject => hkeeps object c (hm c object hobject)

theorem EventEdits.allRecorded (h : EventEdits map m m') (hm : m.AllRecorded) : m'.AllRecorded := by
  induction h with
  | refl => exact hm
  | tail _ hedit ih => exact hedit.allRecorded ih

/-! ### Paving -/

theorem filled_of_tilesFill {object : Laid} {requireTile : Bool} {coord : Coord}
    (hfill : m.tilesFill map order object requireTile coord = some m') :
    Filled object (footprint object.base coord) m m' := by
  obtain ⟨m₁, hsome, hfilled⟩ := tilesFill_spec order requireTile m (validCoord_of_tilesFill hfill)
  obtain rfl := Option.some.inj (hfill.symm.trans hsome)
  exact hfilled

/-- A coordinate that is paved has a tile, or gets one by something that blocks nothing. -/
theorem pave_filled {coord : Coord} (hpave : m.pave map order coord = some m') :
    (m' = m ∧ m.tiles coord ≠ none) ∨
      ∃ object, object.base.block = .none ∧ coord ∈ footprint object.base coord ∧
        Filled object (footprint object.base coord) m m' := by
  unfold pave at hpave
  split_ifs at hpave
  cases htile : m.tiles coord with
  | some t =>
    simp only [htile] at hpave
    exact .inl ⟨(Option.some.inj hpave).symm, Option.some_ne_none t⟩
  | none =>
    obtain ⟨row, hrow, seed, hretrieve⟩ := m.tileObstacleRetrieve_spec map order coord
    simp only [htile, hretrieve] at hpave
    have hfilled := filled_of_tilesFill hpave
    refine .inr ⟨(⟨m.obstacleId + 1, row, coord⟩ : Obstacle).laid, map.tileObstacles_block row hrow,
      corner_mem_footprint row coord, ?_⟩
    exact ⟨hfilled.events, hfilled.roads, hfilled.others, hfilled.objects⟩

theorem moveable_iff {c : Coord} :
    m.moveable map c ↔ map.validCoord c ∧ ∃ t, m.tiles c = some t ∧ ∀ object ∈ t.objects, object.base.block = .none := by
  unfold moveable
  rw [Bool.and_eq_true]
  refine and_congr_right fun _ => ?_
  cases htile : m.tiles c with
  | none => simp
  | some t =>
    obtain ⟨hle, hfrom⟩ := resetblock_spec t.objects
    rw [← t.block_eq] at hle hfrom
    simp only [beq_iff_eq, Option.some.injEq, exists_eq_left']
    constructor
    · intro hblock object hobject
      have hvalue := hle object hobject
      rw [hblock] at hvalue
      exact BlockCategory.eq_none_of_value hvalue
    · intro hall
      rcases hfrom with hnone | ⟨object, hobject, hblock⟩
      · exact hnone
      · rw [← hblock]
        exact hall object hobject

theorem Filled.moveable {object : Laid} {area : List Coord} (hfilled : Filled object area m m')
    (hobject : object.base.block = .none) {c : Coord} (hc : m.moveable map c) : m'.moveable map c := by
  obtain ⟨hvalid, t, ht, hall⟩ := moveable_iff.1 hc
  refine moveable_iff.2 ⟨hvalid, ?_⟩
  by_cases hmem : c ∈ area
  · obtain ⟨t', ht', hobjects⟩ := hfilled.objects c hmem
    refine ⟨t', ht', fun o ho => ?_⟩
    rcases hobjects o ho with rfl | hnone | ⟨t₀, ht₀, hold⟩
    · exact hobject
    · exact hnone
    · obtain rfl := Option.some.inj (ht.symm.trans ht₀)
      exact hall o hold
  · rw [hfilled.others c hmem]
    exact ⟨t, ht, hall⟩

/-- Paving leaves the events, keeps what is recorded, and blocks nothing. -/
theorem Paving.events (h : Paving map order m m') : m'.events = m.events :=
  h.keeps (P := fun m₁ => m₁.events = m.events) (fun _ _ _ hold hpave => (pave_edits hpave).events.trans hold)
    (fun _ _ hold => hold) rfl

theorem Paving.allRecorded (h : Paving map order m m') (hm : m.AllRecorded) : m'.AllRecorded :=
  h.keeps (fun _ _ _ hold hpave => (pave_edits hpave).eventEdits.allRecorded hold) (fun _ _ hold => hold) hm

theorem Paving.moveable (h : Paving map order m m') {c : Coord} (hc : m.moveable map c) : m'.moveable map c := by
  refine h.keeps (P := fun m₁ => m₁.moveable map c) (fun m₁ m₂ coord hold hpave => ?_) (fun _ _ hold => hold) hc
  rcases pave_filled hpave with ⟨rfl, -⟩ | ⟨object, hblock, -, hfilled⟩
  · exact hold
  · exact hfilled.moveable hblock hold

theorem tiles_of_pave {coord : Coord} (hpave : m.pave map order coord = some m') :
    m'.tiles coord ≠ none ∧ ∀ c, m.tiles c ≠ none → m'.tiles c ≠ none := by
  rcases pave_filled hpave with ⟨rfl, htile⟩ | ⟨object, -, hcoord, hfilled⟩
  · exact ⟨htile, fun _ hc => hc⟩
  · exact ⟨(hfilled.tiles_ne_none coord).2 (.inr hcoord), fun c hc => (hfilled.tiles_ne_none c).2 (.inl hc)⟩

/-- Whatever is paved has a tile at the end. -/
theorem tiles_of_foldlM_pave {coords : List Coord} (hpave : coords.foldlM (pave map order) m = some m') :
    (∀ c ∈ coords, m'.tiles c ≠ none) ∧ ∀ c, m.tiles c ≠ none → m'.tiles c ≠ none := by
  induction coords generalizing m with
  | nil =>
    obtain rfl : m = m' := Option.some.inj hpave
    exact ⟨fun c hc => absurd hc List.not_mem_nil, fun _ hc => hc⟩
  | cons coord coords ih =>
    rw [List.foldlM_cons] at hpave
    obtain ⟨m₁, hfirst, hrest⟩ := Option.bind_eq_some_iff.1 hpave
    obtain ⟨hcoord, hkeeps⟩ := tiles_of_pave hfirst
    obtain ⟨hcoords, hkeeps'⟩ := ih hrest
    refine ⟨fun c hc => ?_, fun c hc => hkeeps' c (hkeeps c hc)⟩
    rcases List.mem_cons.1 hc with rfl | hmem
    · exact hkeeps' c hcoord
    · exact hcoords c hmem

/-! ### The generated scene -/

/-- An event of the category `ENTRY`. -/
def isEntry (t : EventSpec) : Bool := t.row.category == .entry

theorem countP_of_kept {given : List EventSpec} {events : List Event}
    (h : List.Forall₂ (fun t event => event.row = t.row ∧ ∀ c, t.coord = some c → event.coord = some c) given events) :
    events.countP (fun event => event.row.category == .entry) = given.countP isEntry := by
  induction h with
  | nil => rfl
  | cons hhead _ ih =>
    rw [List.countP_cons, List.countP_cons, ih, hhead.1]
    rfl

namespace Generated

variable {row : SceneRow} {eventsBase : List EventSpec} (g : Generated order row eventsBase m')

include g

theorem placesAll : PlacesAll row.toMapRow (created order row.stickEvents eventsBase) g.laid :=
  (tilesEventGenerator_edits g.laid_eq).2

theorem blockedEdits : Edits row.toMapRow g.laid g.blocked :=
  (obstacleSTICKGenerator_edits g.stuck_eq).trans (obstacleBLOCKGenerator_edits g.blocked_eq)

theorem paving : Paving row.toMapRow order g.blocked m' :=
  (tilesLinkEvents_paving g.linked_eq).trans (foldlM_pave_paving g.padded_eq)

theorem events : m'.events = g.laid.events := g.paving.events.trans g.blockedEdits.events

theorem allRecorded : m'.AllRecorded := by
  have hstart : g.start.tilesInit.AllRecorded := fun c object hobject => absurd hobject List.not_mem_nil
  have hlaid := (tilesEventGenerator_edits g.laid_eq).1.allRecorded hstart
  exact g.paving.allRecorded (g.blockedEdits.eventEdits.allRecorded hlaid)

theorem tiled {c : Coord} (hvalid : row.validCoord c) : m'.tiles c ≠ none :=
  (tiles_of_foldlM_pave g.padded_eq).1 c (mem_grid.2 hvalid)

/-- The entry that is found can be entered. -/
theorem entry_moveable : ∃ event ∈ m'.events, event.row.category = .entry ∧
    ∃ c, event.coord = some c ∧ m'.moveable row.toMapRow c := by
  obtain ⟨entry, -, -, hentry, -, hmoveable, -⟩ := tilesLinkEvents_cases g.linked_eq
  obtain ⟨event, hfind, hcoord⟩ := Option.bind_eq_some_iff.1 hentry
  have hmem := (order.visit_perm g.blocked.events).mem_iff.1 (List.mem_of_find?_eq_some hfind)
  refine ⟨event, g.paving.events ▸ hmem, ?_, entry, hcoord, g.paving.moveable hmoveable⟩
  simpa using List.find?_some hfind

/-- There is no other if only one was asked for. -/
theorem entry_unique (hone : (row.stickEvents ++ eventsBase).countP isEntry = 1) {event event' : Event}
    (hmem : event ∈ m'.events) (hmem' : event' ∈ m'.events) (hentry : event.row.category = .entry)
    (hentry' : event'.row.category = .entry) : event = event' := by
  have hperm : (created order row.stickEvents eventsBase).Perm (row.stickEvents ++ eventsBase) :=
    (order.visit_perm _).append (order.visit_perm _)
  have hcount : m'.events.countP (fun event => event.row.category == .entry) = 1 := by
    rw [g.events, countP_of_kept g.placesAll.kept, hperm.countP_eq]
    exact hone
  rw [List.countP_eq_length_filter, List.length_eq_one_iff] at hcount
  obtain ⟨only, honly⟩ := hcount
  have hsame : ∀ e ∈ m'.events, e.row.category = .entry → e = only := by
    intro e he hcategory
    have hfilter : e ∈ m'.events.filter fun event => event.row.category == .entry :=
      List.mem_filter.2 ⟨he, beq_iff_eq.2 hcategory⟩
    rw [honly] at hfilter
    exact List.mem_singleton.1 hfilter
  rw [hsame event hmem hentry, hsame event' hmem' hentry']

end Generated

/-! ### Opening -/

/-- What an event is like in the scene that is opened. -/
theorem liveEvent_eq_some {baseid : ℕ → ℤ} {event : Event} {e : LiveEvent} (h : liveEvent baseid event = some e) :
    event.coord = some e.coord ∧ e.id = event.id ∧ e.base = ⟨event.row.base, event.row.category⟩ ∧
      e.accomplish = false := by
  obtain ⟨c, hc, rfl⟩ := Option.map_eq_some_iff.1 h
  exact ⟨hc, rfl, rfl, rfl⟩

/-- What the events of the scene that is opened have to do with those that were made. -/
structure Opens (baseid : ℕ → ℤ) (events : List Event) (live : List LiveEvent) : Prop where
  ids : live.map LiveEvent.id = events.map fun event => (event.id : ℤ)
  forth : ∀ event ∈ events, ∃ e ∈ live, liveEvent baseid event = some e
  back : ∀ e ∈ live, ∃ event ∈ events, liveEvent baseid event = some e

theorem mapM_liveEvent (baseid : ℕ → ℤ) {events : List Event} (h : ∀ event ∈ events, event.coord.isSome) :
    ∃ live, events.mapM (liveEvent baseid) = some live ∧ Opens baseid events live := by
  induction events with
  | nil => exact ⟨[], rfl, rfl, fun event hmem => absurd hmem List.not_mem_nil, fun e he => absurd he List.not_mem_nil⟩
  | cons event events ih =>
    obtain ⟨live, hlive, hopens⟩ := ih fun e he => h e (List.mem_cons_of_mem event he)
    obtain ⟨c, hc⟩ := Option.isSome_iff_exists.1 (h event List.mem_cons_self)
    obtain ⟨first, hhead⟩ : ∃ first, liveEvent baseid event = some first := by
      unfold liveEvent
      rw [hc]
      exact ⟨_, rfl⟩
    refine ⟨first :: live, ?_, ?_, fun e he => ?_, fun e he => ?_⟩
    · rw [List.mapM_cons, hhead, hlive]
      rfl
    · rw [List.map_cons, List.map_cons, hopens.ids, (liveEvent_eq_some hhead).2.1]
    · rcases List.mem_cons.1 he with rfl | hmem
      · exact ⟨_, List.mem_cons_self, hhead⟩
      · obtain ⟨e', he', hsome⟩ := hopens.forth e hmem
        exact ⟨e', List.mem_cons_of_mem _ he', hsome⟩
    · rcases List.mem_cons.1 he with rfl | hmem
      · exact ⟨event, List.mem_cons_self, hhead⟩
      · obtain ⟨event', hevent', hsome⟩ := hopens.back e hmem
        exact ⟨event', List.mem_cons_of_mem event hevent', hsome⟩

namespace Opens

variable {baseid : ℕ → ℤ} {live : List LiveEvent} (hopens : Opens baseid m.events live) (copyid : ℤ)

include hopens

/-- Nothing has been accomplished yet. -/
theorem accomplished (ref : Ref) : (m.openedWith map copyid live).accomplished ref = false := by
  rw [Bool.eq_false_iff]
  intro haccomplished
  obtain ⟨-, e, he, -, haccomplish⟩ := LiveScene.accomplished_iff.1 haccomplished
  obtain ⟨event, -, hsome⟩ := hopens.back e he
  rw [(liveEvent_eq_some hsome).2.2.2] at haccomplish
  cases haccomplish

theorem highest (objects : List Laid) : (m.openedWith map copyid live).highest objects = resetblock objects := by
  have heffective : ∀ object, (m.openedWith map copyid live).effective object = object.base.block := by
    intro object
    unfold LiveScene.effective
    rw [hopens.accomplished copyid, if_neg (by simp)]
  unfold LiveScene.highest resetblock
  simp only [heffective]

end Opens

theorem openedWith_tiles {copyid : ℤ} {live : List LiveEvent} {c : Coord} {t : LiveTile}
    (ht : (m.openedWith map copyid live).tiles c = some t) : ∃ t₀, m.tiles c = some t₀ ∧ t = ⟨t₀.objects, t₀.block⟩ := by
  obtain ⟨t₀, ht₀, heq⟩ := Option.map_eq_some_iff.1 ht
  exact ⟨t₀, ht₀, heq.symm⟩

theorem moveable_openedWith {copyid : ℤ} {live : List LiveEvent} {c : Coord} (hc : m.moveable map c) :
    (m.openedWith map copyid live).moveable c := by
  unfold moveable at hc
  unfold LiveScene.moveable openedWith
  cases htile : m.tiles c with
  | none => simp [htile] at hc
  | some t => simpa [htile] using hc

/-- What was made is sound when it is opened. -/
theorem Generated.sound {row : SceneRow} {eventsBase : List EventSpec} (g : Generated order row eventsBase m')
    (hone : (row.stickEvents ++ eventsBase).countP isEntry = 1) {baseid : ℕ → ℤ} {live : List LiveEvent}
    (hopens : Opens baseid m'.events live) (copyid : ℤ) : Sound (m'.openedWith row.toMapRow copyid live) := by
  constructor
  case tiled => exact fun c hvalid hnone => g.tiled hvalid (Option.map_eq_none_iff.1 hnone)
  case block =>
    intro c t ht
    obtain ⟨t₀, -, rfl⟩ := openedWith_tiles ht
    exact t₀.block_eq.trans (hopens.highest copyid t₀.objects).symm
  case laid =>
    intro c t ht object hobject hevent
    obtain ⟨t₀, ht₀, rfl⟩ := openedWith_tiles ht
    have hat : object ∈ m'.objectsAt c := by
      unfold objectsAt
      rw [ht₀]
      exact hobject
    rcases g.allRecorded c object hat with ⟨event, hmem, rfl, corner, hcorner, hc⟩ | ⟨obstacle, -, rfl⟩
    · obtain ⟨e, he, hsome⟩ := hopens.forth event hmem
      obtain ⟨hcoord, hid, hbase, -⟩ := liveEvent_eq_some hsome
      obtain rfl := Option.some.inj (hcoord.symm.trans hcorner)
      refine ⟨e, he, hid, ?_⟩
      rw [hbase]
      exact hc
    · cases hevent
  case inside =>
    intro e he c hc
    obtain ⟨event, hmem, hsome⟩ := hopens.back e he
    obtain ⟨hcoord, -, hbase, -⟩ := liveEvent_eq_some hsome
    rw [hbase] at hc
    exact (g.placesAll.inside event (g.events ▸ hmem) e.coord hcoord c hc).1
  case ids =>
    have hids : m'.events.map (fun event => (event.id : ℤ)) = (m'.events.map Event.id).map Nat.cast := by
      rw [List.map_map]
      rfl
    show (live.map LiveEvent.id).Nodup
    rw [hopens.ids, hids]
    exact m'.events_nodup.map Nat.cast_injective
  case ids_le =>
    intro e he
    obtain ⟨event, hmem, hsome⟩ := hopens.back e he
    rw [(liveEvent_eq_some hsome).2.1]
    exact Int.ofNat_le.2 (m'.events_le event hmem)
  case members => exact fun id c hc => by cases hc
  case entry =>
    obtain ⟨event, hmem, hentry, -⟩ := g.entry_moveable
    obtain ⟨e, he, hsome⟩ := hopens.forth event hmem
    exact ⟨e, he, by rw [(liveEvent_eq_some hsome).2.2.1]; exact hentry⟩
  case entries =>
    intro e he hcategory
    obtain ⟨entry, hmem, hentry, c, hc, hmoveable⟩ := g.entry_moveable
    obtain ⟨event, hmem', hsome⟩ := hopens.back e he
    obtain ⟨hcoord, -, hbase, -⟩ := liveEvent_eq_some hsome
    rw [hbase] at hcategory
    obtain rfl := g.entry_unique hone hmem' hmem hcategory hentry
    obtain rfl := Option.some.inj (hc.symm.trans hcoord)
    exact moveable_openedWith hmoveable

/-- **The scene that is opened** is there and sound. -/
theorem Generated.opened_sound {row : SceneRow} {eventsBase : List EventSpec} (g : Generated order row eventsBase m')
    (hone : (row.stickEvents ++ eventsBase).countP isEntry = 1) (copyid : ℤ) (baseid : ℕ → ℤ) :
    ∃ s, m'.opened row.toMapRow copyid baseid = some s ∧ Sound s ∧ s.map = row.toMapRow := by
  obtain ⟨live, hlive, hopens⟩ := mapM_liveEvent baseid (g.events ▸ g.placesAll.coords)
  refine ⟨m'.openedWith row.toMapRow copyid live, ?_, g.sound hone hopens copyid, rfl⟩
  unfold opened
  rw [hlive, Option.map_some]

/-- **The tiles of a scene.** There is one entry, and `generator` has returned true. After any run each coordinate of
the map has a tile, its block is the highest of those of its objects, it has not risen since any earlier moment, the
members stand on moveable coordinates, and no call fails by an assertion about that. -/
theorem tiles_sound {order : Pairs} {row : SceneRow} {eventsBase : List EventSpec} {m m' : Making}
    (hone : (row.stickEvents ++ eventsBase).countP isEntry = 1)
    (hgen : generator order row eventsBase m = some (m', true)) (copyid : ℤ) (baseid : ℕ → ℤ) :
    ∃ s₀, m'.opened row.toMapRow copyid baseid = some s₀ ∧ ∀ s, Plays Call.Meets s₀ s →
      (∀ c, row.validCoord c → ∃ t, s.tiles c = some t) ∧
      (∀ c t, s.tiles c = some t → (∀ object ∈ t.objects, (s.effective object).value ≤ t.block.value) ∧
        (t.block = .none ∨ ∃ object ∈ t.objects, s.effective object = t.block)) ∧
      (∀ s', Plays Call.Meets s s' → ∀ c t t', s.tiles c = some t → s'.tiles c = some t' →
        t'.block.value ≤ t.block.value) ∧
      (∀ entityid c, s.members entityid = some c → s.moveable c) ∧
      ∀ (outside : Outside) (order : Pairs) (call : Call), call.Meets outside s →
        ∀ func ∈ [.resetblock, .addMember, .moveRequest, SceneFunc.move],
          fault (call.run outside order) s ≠ some (.asserted func) := by
  obtain ⟨g⟩ := generated_of_generator hgen
  obtain ⟨s₀, hopened, hs₀, hmap⟩ := g.opened_sound hone copyid baseid
  refine ⟨s₀, hopened, fun s hplays => ?_⟩
  obtain ⟨hs, hlowers⟩ := hplays.keeps hs₀
  refine ⟨fun c hvalid => ?_, fun c t ht => ?_, fun s' hplays' c t t' ht ht' => ?_, hs.members, ?_⟩
  · rw [← hmap, ← hlowers.map] at hvalid
    exact Option.ne_none_iff_exists'.1 (hs.tiled c hvalid)
  · rw [hs.block c t ht]
    exact s.highest_spec t.objects
  · obtain ⟨t'', ht'', -, hle⟩ := (hplays'.keeps hs).2.tiles c t ht
    obtain rfl := Option.some.inj (ht'.symm.trans ht'')
    exact hle
  · intro outside order call hmeets func hfunc hfault
    refine (call.keeps order hs hmeets).fault hfault ?_
    unfold Watched
    simpa using hfunc

/-! ### What the callers have to see to -/

/-- The assertions of `add_member` hold in every run of calls made under this condition. -/
def AddsSafely (meets : Outside → LiveScene → Call → Prop) : Prop :=
  ∀ (order : Pairs) (row : SceneRow) (eventsBase : List EventSpec) (m m' : Making),
    (row.stickEvents ++ eventsBase).countP isEntry = 1 → generator order row eventsBase m = some (m', true) →
    ∀ (copyid : ℤ) (baseid : ℕ → ℤ) (s₀ s : LiveScene), m'.opened row.toMapRow copyid baseid = some s₀ →
      Plays meets s₀ s → ∀ (outside : Outside) (order : Pairs) (call : Call), meets outside s call →
        fault (call.run outside order) s ≠ some (.asserted .addMember)

/-- A statue that is an event, and stays in the way when it has been triggered. -/
def statueRow : ObjectRow where
  base := ⟨1, 1, .static, some .trigger⟩
  requireTile := false
  width_pos := floorRow.width_pos
  height_pos := floorRow.height_pos

theorem statueHall_width : (0 : ℤ) < 4 := by decide

/-- A row of four tiles: the statue, a free tile, the entry, the exit. -/
def statueHall : SceneRow where
  width := 4
  height := 1
  chessboard := true
  tileObstacles := [floorRow]
  width_pos := statueHall_width
  height_pos := strip.height_pos
  tileObstacles_ne := strip.tileObstacles_ne
  tileObstacles_block := strip.tileObstacles_block
  stickEvents := [⟨⟨statueRow, .monster⟩, some ⟨0, 0⟩⟩, ⟨⟨floorRow, .entry⟩, some ⟨2, 0⟩⟩, ⟨⟨floorRow, .exit⟩, some ⟨3, 0⟩⟩]
  stickObstacles := []
  obstacles := []

/-- What `generator` makes of it. -/
def statueHallMade : Making × Bool := (generator Pairs.inOrder statueHall [] blank).getD (blank, false)

/-- Every event leads to another entry. -/
def entriesOutside : Outside where
  event _ := some ⟨floorRow.base, .entry⟩
  script _ _ := some ⟨some 9, [.monster]⟩
  abort _ := true

/-- An entity without a record. -/
def guest (id : ℤ) : Visitor := ⟨id, 1, .noRecord⟩

theorem statueHall_made : generator Pairs.inOrder statueHall [] blank = some (statueHallMade.1, true) := by
  have hsome : (generator Pairs.inOrder statueHall [] blank).isSome := by decide
  have htrue : statueHallMade.2 = true := by decide
  rw [← htrue]
  obtain ⟨r, hr⟩ := Option.isSome_iff_exists.1 hsome
  rw [statueHallMade, hr]
  rfl

/-- Whoever is in the hall stands well. -/
theorem tiles_sound_statueHall :
    ∃ s₀, statueHallMade.1.opened statueHall.toMapRow 1 Nat.cast = some s₀ ∧ ∀ s, Plays Call.Meets s₀ s →
      ∀ entityid c, s.members entityid = some c → s.moveable c := by
  obtain ⟨s₀, hopened, hall⟩ := tiles_sound (by decide) statueHall_made 1 Nat.cast
  exact ⟨s₀, hopened, fun s hplays => (hall s hplays).2.2.2.1⟩

/-- The scene after some calls. -/
def afterCalls (calls : List Call) (s : LiveScene) : LiveScene :=
  calls.foldl (fun s call => endState (call.run entriesOutside Pairs.inOrder) s) s

theorem plays_afterCalls {meets : Outside → LiveScene → Call → Prop} {s : LiveScene} {calls : List Call} (call : Call)
    (hplays : Plays meets s (afterCalls calls s)) (hmeets : meets entriesOutside (afterCalls calls s) call) :
    Plays meets s (afterCalls (calls ++ [call]) s) := by
  refine hplays.tail ⟨entriesOutside, Pairs.inOrder, call, hmeets, ?_⟩
  unfold afterCalls
  rw [List.foldl_append]
  rfl

/-- The hall when `generator` has returned. -/
def statueHallOpened : Option LiveScene := statueHallMade.1.opened statueHall.toMapRow 1 Nat.cast

/-- An entity comes to the statue. -/
def walked : List Call := [.addMember (guest 7), .move 7 ⟨1, 0⟩, .moveRequest 7 ⟨0, 0⟩]

/-- A member that is added again, an entity of another copy, and an entity that is added when the statue has led to an
entry. -/
theorem not_addsSafely :
    ¬ AddsSafely (fun outside s call => call.Inside outside s ∧ call.NoEntry outside s ∧ call.OfCopy s) ∧
      ¬ AddsSafely (fun outside s call => call.Inside outside s ∧ call.NoEntry outside s ∧ call.New s) ∧
      ¬ AddsSafely fun outside s call => call.Inside outside s ∧ call.OfCopy s ∧ call.New s := by
  have hsome : statueHallOpened.isSome := by decide
  obtain ⟨s, hs⟩ := Option.isSome_iff_exists.1 hsome
  have hone : (statueHall.stickEvents ++ []).countP isEntry = 1 := by decide
  have hfirst : statueHallOpened.map (fun s => (s.copyid, s.members 7)) = some (1, none) := by decide
  rw [hs, Option.map_some] at hfirst
  obtain ⟨hcopy, hmember⟩ := Prod.mk.inj (Option.some.inj hfirst)
  refine ⟨fun h => ?_, fun h => ?_, fun h => ?_⟩
  · have hfault : statueHallOpened.map (fun s => fault (Call.run entriesOutside Pairs.inOrder (.addMember (guest 7)))
        (afterCalls [.addMember (guest 7)] s)) = some (some (.asserted .addMember)) := by decide
    have hlast : statueHallOpened.map (fun s => (afterCalls [.addMember (guest 7)] s).copyid) = some 1 := by decide
    rw [hs, Option.map_some] at hfault hlast
    refine h _ _ _ _ _ hone statueHall_made 1 Nat.cast s (afterCalls [.addMember (guest 7)] s) hs (.single ?_) entriesOutside
      Pairs.inOrder (.addMember (guest 7)) ⟨trivial, trivial, (Option.some.inj hlast).symm⟩ (Option.some.inj hfault)
    exact ⟨entriesOutside, Pairs.inOrder, .addMember (guest 7), ⟨trivial, trivial, hcopy.symm⟩, rfl⟩
  · have hfault : statueHallOpened.map (fun s => fault (Call.run entriesOutside Pairs.inOrder (.addMember ⟨7, 2, .noRecord⟩)) s) =
        some (some (.asserted .addMember)) := by decide
    rw [hs, Option.map_some] at hfault
    exact h _ _ _ _ _ hone statueHall_made 1 Nat.cast s s hs .refl entriesOutside Pairs.inOrder (.addMember ⟨7, 2, .noRecord⟩)
      ⟨trivial, trivial, hmember⟩ (Option.some.inj hfault)
  · have hfault : statueHallOpened.map (fun s => fault (Call.run entriesOutside Pairs.reversed (.addMember (guest 8)))
        (afterCalls (walked ++ [.triggerLinkedEvent 7]) s)) = some (some (.asserted .addMember)) := by decide
    have hlast : statueHallOpened.map (fun s => ((afterCalls (walked ++ [.triggerLinkedEvent 7]) s).copyid,
        (afterCalls (walked ++ [.triggerLinkedEvent 7]) s).members 8)) = some (1, none) := by decide
    have hvalid : statueHallOpened.map (fun s => (afterCalls walked s).events.all fun event =>
        (footprint floorRow.base event.coord).all (afterCalls walked s).map.validCoord) = some true := by decide
    rw [hs, Option.map_some] at hfault hlast hvalid
    obtain ⟨hcopy', hmember'⟩ := Prod.mk.inj (Option.some.inj hlast)
    have hinside : Call.Inside entriesOutside (afterCalls walked s) (.triggerLinkedEvent 7) := by
      rintro event hmem - base ⟨content, -, baseid, -, hbase⟩ c hc
      obtain rfl := Option.some.inj hbase
      have hall := List.all_eq_true.1 (Option.some.inj hvalid) event hmem
      exact List.all_eq_true.1 hall c hc
    have hstart : Plays (fun outside s call => Call.Inside outside s call ∧ call.OfCopy s ∧ call.New s) s (afterCalls [] s) := .refl
    have hadded := plays_afterCalls (.addMember (guest 7)) hstart ⟨trivial, hcopy.symm, hmember⟩
    have hmoved := plays_afterCalls (.move 7 ⟨1, 0⟩) hadded ⟨trivial, trivial, trivial⟩
    have hwalked := plays_afterCalls (.moveRequest 7 ⟨0, 0⟩) hmoved ⟨trivial, trivial, trivial⟩
    have hlinked := plays_afterCalls (.triggerLinkedEvent 7) hwalked ⟨hinside, trivial, trivial⟩
    exact h _ _ _ _ _ hone statueHall_made 1 Nat.cast s _ hs hlinked entriesOutside Pairs.reversed (.addMember (guest 8))
      ⟨trivial, hcopy'.symm, hmember'⟩ (Option.some.inj hfault)

end Making

end Slam.Grid
