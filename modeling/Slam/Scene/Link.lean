import Slam.Scene.Placement
import Slam.Astar.Sound

/-!
# `tiles_link_events`: the roads of a scene

The events are linked one after another. A link starts at the tile of the event before or at a coordinate of
the roads found so far, whichever can be passed and is nearest. `FindPath` answers with no coordinates at all if
the next event is straight next to the start and cannot be passed; if that is so for the first event after the
entry, there are no roads and the event's tile is no start either, so that the next link has none (`Stuck`).
Otherwise there are roads from then on.

* `tilesLinkEvents`: the function; a search that overruns its pool raises, and so does a tile obstacle that
  reaches over the edge (`Stands`);
* `Linked`: what holds of the roads and the events still to come;
* `link_events_iff`: when linking does not raise.
-/

namespace Slam.Grid

open Slam.Astar Slam.Random
open Slam.Game (EventCategory)

namespace Making

variable (map : MapRow) (order : Pairs)

/-- `tiles_event_find(eventCategory)` -/
def tilesEventFind (m : Making) (category : EventCategory) : Option Event :=
  (order.visit m.events).find? fun event => event.row.category == category

/-- `distance(from, to)` -/
def distance (src dest : Coord) : Option ℕ :=
  if map.validCoord src && map.validCoord dest then some (cost src dest) else none

/-- `while t[distance] ~= nil do distance = distance + 1 end`, none if so many turns are not enough. -/
def freeDistance (t : List (ℕ × Event)) : ℕ → ℕ → Option ℕ
  | 0, _ => none
  | turns + 1, distance =>
    if t.any fun entry => entry.1 == distance then freeDistance t turns (distance + 1) else some distance

/-- The body of `sort_events` -/
def sortEvent (fromCoord : Coord) (t : List (ℕ × Event)) (event : Event) : Option (List (ℕ × Event)) :=
  if event.row.category ≠ .entry ∧ event.row.category ≠ .exit then do
    let coord ← event.coord
    let d ← distance map fromCoord coord
    let d ← freeDistance t (t.length + 1) d
    return t ++ [(d, event)]
  else some t

/-- `sort_events(from)` -/
def sortEvents (m : Making) (fromCoord : Coord) : Option (List (ℕ × Event)) :=
  (order.visit m.events).foldlM (sortEvent map fromCoord) []

/-- The body of the loop of `shortest_distance`: `min_coord` and `min_distance`, which are nil together. -/
def nearer (m : Making) (dest : Coord) (best : Option (Coord × ℕ)) (coord : Coord) : Option (Option (Coord × ℕ)) :=
  if m.passable map coord then do
    let d ← distance map coord dest
    match best with
    | none => return some (coord, d)
    | some (_, minDistance) => return if d < minDistance then some (coord, d) else best
  else none

/-- `shortest_distance(src_coord, self.roads, dest_coord)`: the coordinate, or nil. -/
def shortestDistance (m : Making) (src dest : Coord) : Option (Option Coord) := do
  let best ← if m.passable map src then (distance map src dest).map fun d => some (src, d) else some none
  let best ← (order.visit m.roads).foldlM (m.nearer map dest) best
  return best.map Prod.fst

/-- The arguments with which `link_event` calls `FindPath`. -/
def query (m : Making) (src dest : Coord) : Query where
  src := src
  dest := dest
  step := 1
  radius := max map.width map.height
  moveable := m.passable map

/-- The body of the loop of `link_event`: a coordinate of the road gets a tile if it has none. -/
def pave (m : Making) (coord : Coord) : Option Making :=
  if map.validCoord coord then
    match m.tiles coord with
    | none =>
      match m.tileObstacleRetrieve map order coord with
      | (none, _) => none
      | (some row, m) =>
        let tile : Obstacle := ⟨m.obstacleId + 1, row, coord⟩
        (m.createObstacleObject row coord).tilesFill map order tile.laid row.requireTile coord
    | some _ => some m
  else none

/-- `link_event(src_coord, dest_coord)`: the road, or nil. -/
def linkEvent (m : Making) (src dest : Coord) : Option (Making × Option (List Coord)) :=
  match findPath (m.query map src dest) with
  | .raised => none
  | .failure _ => some (m, none)
  | .roads road => do
    let m ← (order.visit road).foldlM (pave map order) m
    return (m, some road)

/-- A link from the nearest start. Where there is none, the log cannot be written. -/
def linkTo (m : Making) (fromCoord dest : Coord) : Option (Making × Option (List Coord)) := do
  match ← m.shortestDistance map order fromCoord dest with
  | none => none
  | some start => m.linkEvent map order start dest

/-- The variables of the loop over `to`. -/
structure Linking where
  making : Making
  fromCoord : Coord
  toEvents : List (ℕ × Event)

/-- One turn of the loop, for the entry of `to` that `pairs` comes to first. On the right the scene is
unreachable somewhere, and the function returns false. -/
def linkTurn (l : Linking) (i : ℕ) (event : Event) : Option (Linking ⊕ Making) := do
  let dest ← event.coord
  match ← l.making.linkTo map order l.fromCoord dest with
  | (m, none) => return .inr m
  | (m, some road) =>
    if road.all (m.passable map) then
      return .inl ⟨{ m with roads := m.roads ++ order.visit road }, dest, l.toEvents.filter fun entry => entry.1 ≠ i⟩
    else none

/-- The loop, and the link to the exit after it. -/
def linkEvents (exit : Coord) : ℕ → Linking → Option (Making × Option (List Coord))
  | 0, _ => none
  | turns + 1, l =>
    match order.visit l.toEvents with
    | [] => l.making.linkTo map order l.fromCoord exit
    | (i, event) :: _ => do
      match ← linkTurn map order l i event with
      | .inl l => linkEvents exit turns l
      | .inr m => return (m, none)

/-- `tiles_link_events()`: the road to the exit; none stands for false or nil. -/
def tilesLinkEvents (m : Making) : Option (Making × Option (List Coord)) := do
  let entry ← m.tilesEventFind order .entry
  let fromCoord ← entry.coord
  if !(map.validCoord fromCoord && m.moveable map fromCoord) then none
  let exit ← m.tilesEventFind order .exit
  let dest ← exit.coord
  let toEvents ← m.sortEvents map order fromCoord
  linkEvents map order dest (toEvents.length + 1) ⟨m, fromCoord, toEvents⟩

variable {map order}

/-! ### What is still to come -/

/-- The loop for a free key ends: there are no more keys than turns. -/
theorem exists_freeDistance (t : List (ℕ × Event)) (distance : ℕ) :
    ∃ d, freeDistance t (t.length + 1) distance = some d := by
  have hnone : ∀ turns distance, freeDistance t turns distance = none →
      ∀ k < turns, distance + k ∈ t.map Prod.fst := by
    intro turns
    induction turns with
    | zero => exact fun _ _ k hk => absurd hk (Nat.not_lt_zero k)
    | succ turns ih =>
      intro distance hfree k hk
      unfold freeDistance at hfree
      split_ifs at hfree with htaken
      cases k with
      | zero =>
        obtain ⟨entry, hmem, hkey⟩ := List.any_eq_true.1 htaken
        exact List.mem_map.2 ⟨entry, hmem, eq_of_beq hkey⟩
      | succ k =>
        have hrest := ih (distance + 1) hfree k (Nat.lt_of_succ_lt_succ hk)
        rwa [show distance + (k + 1) = distance + 1 + k by omega]
  by_contra hall
  have hfree : freeDistance t (t.length + 1) distance = none := by
    rcases hd : freeDistance t (t.length + 1) distance with _ | d
    · rfl
    · exact absurd ⟨d, hd⟩ hall
  have hsub : List.range' distance (t.length + 1) ⊆ t.map Prod.fst := by
    intro d hd
    rw [List.mem_range'_1] at hd
    have hmem := hnone _ _ hfree (d - distance) (by omega)
    rwa [show distance + (d - distance) = d by omega] at hmem
  have hnodup : (List.range' distance (t.length + 1)).Nodup := List.nodup_range'
  have hle := (List.subperm_of_subset hnodup hsub).length_le
  simp at hle

/-- Every event stands at a coordinate of the map. -/
def OnMap (map : MapRow) (event : Event) : Prop := ∃ c, event.coord = some c ∧ map.validCoord c

/-- `sort_events` comes to an end, and takes its events from the scene. -/
theorem sortEvents_spec (order : Pairs) {m : Making} {fromCoord : Coord} (hfrom : map.validCoord fromCoord)
    (hplaced : ∀ event ∈ m.events, OnMap map event) :
    ∃ toEvents, m.sortEvents map order fromCoord = some toEvents ∧ ∀ entry ∈ toEvents, OnMap map entry.2 := by
  unfold sortEvents
  have hall : ∀ event ∈ order.visit m.events, OnMap map event := fun event hmem =>
    hplaced event ((order.visit_perm m.events).mem_iff.1 hmem)
  have hnil : ∀ entry ∈ ([] : List (ℕ × Event)), OnMap map entry.2 := fun entry hmem => absurd hmem List.not_mem_nil
  generalize order.visit m.events = events at hall
  generalize ([] : List (ℕ × Event)) = t at hnil ⊢
  induction events generalizing t with
  | nil => exact ⟨t, rfl, hnil⟩
  | cons event events ih =>
    have hrest := ih fun e he => hall e (List.mem_cons_of_mem event he)
    obtain ⟨c, hc, hvalid⟩ := hall event List.mem_cons_self
    simp only [List.foldlM_cons]
    unfold sortEvent
    split_ifs with hcategory
    · obtain ⟨d, hd⟩ := exists_freeDistance t (cost fromCoord c)
      have hdistance : distance map fromCoord c = some (cost fromCoord c) := by simp [distance, hfrom, hvalid]
      obtain ⟨toEvents, hsome, hto⟩ := hrest (t ++ [(d, event)]) fun entry hmem => by
        rcases List.mem_append.1 hmem with hold | hnew
        · exact hnil entry hold
        · rw [List.mem_singleton.1 hnew]
          exact ⟨c, hc, hvalid⟩
      refine ⟨toEvents, ?_, hto⟩
      simp only [hc, hdistance, hd, Option.bind_eq_bind, Option.bind_some, Option.pure_def]
      exact hsome
    · exact hrest t hnil

/-! ### The start of a link -/

theorem validCoord_of_passable {m : Making} {c : Coord} (h : m.passable map c) : map.validCoord c := (passable_iff.1 h).1

/-- The loop of `shortest_distance` over coordinates that can be passed. -/
theorem foldlM_nearer {m : Making} {dest : Coord} (hdest : map.validCoord dest) {coords : List Coord}
    (hpass : ∀ c ∈ coords, m.passable map c) (best : Option (Coord × ℕ)) :
    ∃ best', coords.foldlM (m.nearer map dest) best = some best' ∧ (best' = none ↔ best = none ∧ coords = []) ∧
      ∀ p ∈ best', p ∈ best ∨ p.1 ∈ coords := by
  induction coords generalizing best with
  | nil => exact ⟨best, rfl, by simp, fun p hp => .inl hp⟩
  | cons c coords ih =>
    have hc := hpass c List.mem_cons_self
    have hdistance : distance map c dest = some (cost c dest) := by
      simp [distance, validCoord_of_passable hc, hdest]
    obtain ⟨next, hnext, hsome⟩ : ∃ next : Coord × ℕ, m.nearer map dest best c = some (some next) ∧
        (next ∈ best ∨ next.1 = c) := by
      unfold nearer
      rw [if_pos hc, hdistance]
      rcases best with _ | ⟨b, minDistance⟩
      · exact ⟨(c, cost c dest), rfl, .inr rfl⟩
      · simp only [Option.bind_eq_bind, Option.bind_some, Option.pure_def]
        split_ifs with hless
        · exact ⟨(c, cost c dest), rfl, .inr rfl⟩
        · exact ⟨(b, minDistance), rfl, .inl rfl⟩
    obtain ⟨best', hbest', hnone, hmem⟩ := ih (fun d hd => hpass d (List.mem_cons_of_mem c hd)) (some next)
    refine ⟨best', ?_, by simp [hnone], fun p hp => ?_⟩
    · rw [List.foldlM_cons, hnext]
      exact hbest'
    · rcases hmem p hp with hp | hp
      · obtain rfl : next = p := by simpa using hp
        rcases hsome with hold | hnew
        · exact .inl hold
        · exact .inr (hnew ▸ List.mem_cons_self)
      · exact .inr (List.mem_cons_of_mem c hp)

/-- **The start of a link.** It is there unless the tile of the event before cannot be passed and there are no
roads, and can be passed. -/
theorem shortestDistance_spec (order : Pairs) {m : Making} (src : Coord) {dest : Coord} (hdest : map.validCoord dest)
    (hroads : ∀ c ∈ m.roads, m.passable map c) :
    ∃ start, m.shortestDistance map order src dest = some start ∧
      (start = none ↔ ¬ m.passable map src ∧ m.roads = []) ∧
      ∀ c ∈ start, m.passable map c ∧ (c = src ∨ c ∈ m.roads) := by
  have hperm := order.visit_perm m.roads
  have hvisit : ∀ c ∈ order.visit m.roads, m.passable map c := fun c hc => hroads c (hperm.mem_iff.1 hc)
  have hnil : order.visit m.roads = [] ↔ m.roads = [] := by
    rw [← List.length_eq_zero_iff, hperm.length_eq, List.length_eq_zero_iff]
  unfold shortestDistance
  by_cases hsrc : m.passable map src
  · obtain ⟨best, hbest, hnone, hmem⟩ := foldlM_nearer hdest hvisit (some (src, cost src dest))
    refine ⟨best.map Prod.fst, ?_, by simp [hnone, hsrc], fun c hc => ?_⟩
    · rw [if_pos hsrc]
      simp only [distance, validCoord_of_passable hsrc, hdest, Bool.and_self, if_true, Option.map_some, hbest,
        Option.bind_eq_bind, Option.bind_some, Option.pure_def]
    · obtain ⟨p, hp, rfl⟩ := Option.mem_map.1 hc
      rcases hmem p hp with hp | hp
      · obtain rfl : (src, cost src dest) = p := by simpa using hp
        exact ⟨hsrc, .inl rfl⟩
      · exact ⟨hvisit p.1 hp, .inr (hperm.mem_iff.1 hp)⟩
  · obtain ⟨best, hbest, hnone, hmem⟩ := foldlM_nearer hdest hvisit none
    refine ⟨best.map Prod.fst, ?_, by simp [hnone, hsrc, hnil], fun c hc => ?_⟩
    · rw [if_neg hsrc]
      simp only [hbest, Option.bind_eq_bind, Option.bind_some, Option.pure_def]
    · obtain ⟨p, hp, rfl⟩ := Option.mem_map.1 hc
      rcases hmem p hp with hp | hp
      · exact absurd hp (by simp)
      · exact ⟨hvisit p.1 hp, .inr (hperm.mem_iff.1 hp)⟩

/-! ### One link -/

/-- The tile obstacle that is taken for a coordinate lies on the map. -/
def Fits (map : MapRow) (order : Pairs) (m : Making) (coord : Coord) : Prop :=
  ∀ row ∈ (m.tileObstacleRetrieve map order coord).1, ∀ c ∈ footprint row.base coord, map.validCoord c

/-- So do all that are laid on a road. -/
def Paves (map : MapRow) (order : Pairs) : List Coord → Making → Prop
  | [], _ => True
  | coord :: coords, m =>
    (m.tiles coord = none → Fits map order m coord) ∧
      ∀ m', m.pave map order coord = some m' → Paves map order coords m'

/-- A link stands: `FindPath` does not overrun its pool, and the tile obstacles of the road lie on the map. -/
def Stands (map : MapRow) (order : Pairs) (m : Making) (src dest : Coord) : Prop :=
  findPath (m.query map src dest) ≠ .raised ∧
    ∀ road, findPath (m.query map src dest) = .roads road → Paves map order (order.visit road) m

/-- What paving leaves: what could be passed still can be. -/
structure Paved (map : MapRow) (m m' : Making) : Prop where
  events : m'.events = m.events
  roads : m'.roads = m.roads
  passable : ∀ c, m.passable map c → m'.passable map c

theorem Paved.refl (m : Making) : Paved map m m := ⟨rfl, rfl, fun _ h => h⟩

theorem Paved.trans {m m₁ m' : Making} (h : Paved map m m₁) (h' : Paved map m₁ m') : Paved map m m' :=
  ⟨h'.events.trans h.events, h'.roads.trans h.roads, fun c hc => h'.passable c (h.passable c hc)⟩

/-- One coordinate of the road. -/
theorem pave_spec (order : Pairs) {m : Making} {coord : Coord} (hvalid : map.validCoord coord) :
    ((m.tiles coord = none → Fits map order m coord) ∧ ∃ m', m.pave map order coord = some m' ∧ Paved map m m') ∨
      (¬ (m.tiles coord = none → Fits map order m coord) ∧ m.pave map order coord = none) := by
  unfold pave
  rw [if_pos hvalid]
  rcases htile : m.tiles coord with _ | t
  · obtain ⟨row, hrow, seed, hretrieve⟩ := m.tileObstacleRetrieve_spec map order coord
    simp only [hretrieve, forall_true_left]
    by_cases hfits : ∀ c ∈ footprint row.base coord, map.validCoord c
    · obtain ⟨m', hfill, hfilled⟩ := @tilesFill_spec map order
        (⟨m.obstacleId + 1, row, coord⟩ : Obstacle).laid row.requireTile
        (createObstacleObject { m with seed } row coord) coord hfits
      refine .inl ⟨fun row' hrow' => ?_, m', hfill, hfilled.events, hfilled.roads, fun c hc => ?_⟩
      · rw [hretrieve] at hrow'
        obtain rfl : row = row' := by simpa using hrow'
        exact hfits
      · refine hfilled.passable ?_ hc
        simp [Obstacle.laid, stands, map.tileObstacles_block row hrow]
    · refine .inr ⟨fun hall => hfits (hall row (by rw [hretrieve]; rfl)), ?_⟩
      by_contra hsome
      obtain ⟨m', hfill⟩ := Option.ne_none_iff_exists'.1 hsome
      exact hfits (validCoord_of_tilesFill hfill)
  · exact .inl ⟨fun hnone => absurd hnone (by simp), m, rfl, .refl m⟩

/-- A road whose coordinates are on the map. -/
theorem foldlM_pave (order : Pairs) {coords : List Coord} (hvalid : ∀ c ∈ coords, map.validCoord c) (m : Making) :
    (Paves map order coords m ∧ ∃ m', coords.foldlM (pave map order) m = some m' ∧ Paved map m m') ∨
      (¬ Paves map order coords m ∧ coords.foldlM (pave map order) m = none) := by
  induction coords generalizing m with
  | nil => exact .inl ⟨trivial, m, rfl, .refl m⟩
  | cons c coords ih =>
    rw [List.foldlM_cons]
    rcases pave_spec order (m := m) (hvalid c List.mem_cons_self) with
      ⟨hfits, m₁, hpave, hpaved⟩ | ⟨hfits, hpave⟩
    · rw [hpave]
      rcases ih (fun d hd => hvalid d (List.mem_cons_of_mem c hd)) m₁ with ⟨hpaves, m', hrest, hpaved'⟩ | ⟨hpaves, hrest⟩
      · refine .inl ⟨⟨hfits, fun m₂ hm₂ => ?_⟩, m', hrest, hpaved.trans hpaved'⟩
        obtain rfl : m₁ = m₂ := Option.some.inj (hpave.symm.trans hm₂)
        exact hpaves
      · exact .inr ⟨fun h => hpaves (h.2 m₁ hpave), hrest⟩
    · rw [hpave]
      exact .inr ⟨fun h => hfits h.1, rfl⟩

/-- A road without coordinates: `dest` cannot be passed and is straight next to `src`, or the same. -/
structure Beside (map : MapRow) (m : Making) (src dest : Coord) : Prop where
  close : cost src dest ≤ 1
  blocked : ¬ m.passable map dest
  leaves : Astar.passable src (m.passable map)

theorem beside_of_findPath {m : Making} {src dest : Coord} (hfind : findPath (m.query map src dest) = .roads []) :
    Beside map m src dest := by
  have hleaves : Astar.passable src (m.passable map) := by
    unfold findPath at hfind
    split_ifs at hfind with hsrc
    all_goals simpa [query] using hsrc
  rcases findPath_sound rfl hfind with hpath | ⟨-, -, hroad⟩ | ⟨hclose, hblocked, -⟩
  · obtain ⟨c, hc, -⟩ := hpath.arrives
    exact absurd hc (by simp)
  · exact absurd hroad (by simp)
  · exact ⟨hclose, hblocked, hleaves⟩

/-- Conversely, from a start that can be passed `FindPath` answers so. -/
theorem findPath_of_beside {m : Making} {src dest : Coord} (hsrc : m.passable map src) (h : Beside map m src dest) :
    findPath (m.query map src dest) = .roads [] := by
  have hne : cost src dest ≠ 0 := fun hzero => h.blocked (cost_eq_zero.1 hzero ▸ hsrc)
  have hadj : Adjacent src dest := le_antisymm h.close (Nat.one_le_iff_ne_zero.2 hne)
  have hdest : Astar.passable dest (m.passable map) := Astar.passable_iff.2 ⟨src, Query.Adjacent.symm hadj, hsrc⟩
  have hwidth := map.width_pos
  have hclose := h.close
  unfold cost at hclose
  unfold findPath
  rw [if_neg (by simpa [query] using h.leaves), if_neg (by simpa [query] using hdest)]
  rw [if_neg, if_pos]
  · have hblocked : (m.query map src dest).moveable dest = false := by simpa [query] using h.blocked
    show Result.roads (if (m.query map src dest).moveable dest then [dest] else []) = .roads []
    rw [hblocked]
    rfl
  · exact (Query.near_iff rfl).2 h.close
  · have hx : |dest.x - src.x| ≤ 1 := abs_le.2 ⟨by omega, by omega⟩
    have hy : |dest.y - src.y| ≤ 1 := abs_le.2 ⟨by omega, by omega⟩
    have hradius : 1 ≤ max map.width map.height := le_max_of_le_left hwidth
    simp only [query, Bool.or_eq_true, decide_eq_true_eq, mul_one, not_or, not_lt]
    exact ⟨hx.trans hradius, hy.trans hradius⟩

/-- **One link.** It raises exactly if it does not stand. The coordinates of a road can be passed. -/
theorem linkEvent_spec (map : MapRow) (order : Pairs) (m : Making) (src dest : Coord) :
    (Stands map order m src dest ∧ ∃ m' road, m.linkEvent map order src dest = some (m', road) ∧ Paved map m m' ∧
        ∀ coords ∈ road, (∀ c ∈ coords, m.passable map c) ∧ (coords = [] → Beside map m src dest)) ∨
      (¬ Stands map order m src dest ∧ m.linkEvent map order src dest = none) := by
  unfold linkEvent Stands
  cases hfind : findPath (m.query map src dest) with
  | raised => exact .inr ⟨fun h => h.1 rfl, rfl⟩
  | failure errorstring =>
    exact .inl ⟨⟨nofun, nofun⟩, m, none, rfl, .refl m, nofun⟩
  | roads road =>
    have hpass : ∀ c ∈ road, m.passable map c := by
      rcases findPath_sound rfl hfind with hpath | ⟨hsame, hmove, rfl⟩ | ⟨-, -, rfl⟩
      · exact hpath.moveable
      · exact fun c hc => List.mem_singleton.1 hc ▸ hmove
      · exact fun c hc => absurd hc List.not_mem_nil
    have hvalid : ∀ c ∈ order.visit road, map.validCoord c := fun c hc =>
      validCoord_of_passable (hpass c ((order.visit_perm road).mem_iff.1 hc))
    rcases foldlM_pave order hvalid m with ⟨hpaves, m', hfold, hpaved⟩ | ⟨hpaves, hfold⟩
    · refine .inl ⟨⟨nofun, fun road' hroad => ?_⟩, m', some road, ?_, hpaved, ?_⟩
      · obtain rfl : road = road' := by simpa using hroad
        exact hpaves
      · simp only [hfold, Option.bind_eq_bind, Option.bind_some, Option.pure_def]
      · intro coords hcoords
        obtain rfl : road = coords := by simpa using hcoords
        exact ⟨hpass, fun hnil => beside_of_findPath (hnil ▸ hfind)⟩
    · refine .inr ⟨fun h => hpaves (h.2 road rfl), ?_⟩
      simp only [hfold, Option.bind_eq_bind, Option.bind_none]

/-- With tile obstacles of one tile, all a link needs is that `FindPath` does not overrun its pool. -/
theorem stands_of_single (hsingle : ∀ row ∈ map.tileObstacles, row.base.width = 1 ∧ row.base.height = 1) {m : Making}
    {src dest : Coord} : Stands map order m src dest ↔ findPath (m.query map src dest) ≠ .raised := by
  have hpaves : ∀ (coords : List Coord) (m : Making), (∀ c ∈ coords, map.validCoord c) → Paves map order coords m := by
    intro coords
    induction coords with
    | nil => exact fun _ _ => trivial
    | cons coord coords ih =>
      refine fun m hvalid => ⟨fun _ row hrow c hc => ?_, fun m' _ => ih m' fun d hd => hvalid d (List.mem_cons_of_mem _ hd)⟩
      obtain ⟨row', hrow', seed, hretrieve⟩ := m.tileObstacleRetrieve_spec map order coord
      rw [hretrieve] at hrow
      obtain rfl : row' = row := by simpa using hrow
      obtain ⟨hwidth, hheight⟩ := hsingle row' hrow'
      rw [mem_footprint] at hc
      have hx : c.x = coord.x := by omega
      have hy : c.y = coord.y := by omega
      have hsame : c = coord := by
        obtain ⟨x, y⟩ := c
        dsimp only at hx hy
        rw [hx, hy]
      exact hsame ▸ hvalid coord List.mem_cons_self
  refine ⟨And.left, fun hraised => ⟨hraised, fun road hfind => hpaves _ m fun c hc => ?_⟩⟩
  have hmem := (order.visit_perm road).mem_iff.1 hc
  rcases findPath_sound rfl hfind with hpath | ⟨-, hmove, rfl⟩ | ⟨-, -, rfl⟩
  · exact validCoord_of_passable (hpath.moveable c hmem)
  · exact validCoord_of_passable (List.mem_singleton.1 hmem ▸ hmove)
  · exact absurd hmem List.not_mem_nil

/-! ### The run -/

/-- The roads can be passed, and the events still to come stand on the map. -/
structure Linked (map : MapRow) (l : Linking) : Prop where
  roads : ∀ c ∈ l.making.roads, l.making.passable map c
  toEvents : ∀ entry ∈ l.toEvents, OnMap map entry.2

/-- There is a start: the tile of the event before, or a coordinate of a road. -/
def HasStart (map : MapRow) (l : Linking) : Prop := l.making.passable map l.fromCoord ∨ l.making.roads ≠ []

/-- The destination of the next link. -/
def nextDest (order : Pairs) (exit : Coord) (l : Linking) : Option Coord :=
  match order.visit l.toEvents with
  | [] => some exit
  | (_, event) :: _ => event.coord

/-- A turn of the loop. -/
def Goes (map : MapRow) (order : Pairs) (l l' : Linking) : Prop :=
  ∃ i event rest, order.visit l.toEvents = (i, event) :: rest ∧ linkTurn map order l i event = some (.inl l')

/-- Some turns of the loop. -/
def Reaches (map : MapRow) (order : Pairs) : Linking → Linking → Prop := Relation.ReflTransGen (Goes map order)

/-- Every link that is tried stands. -/
def LinksStand (map : MapRow) (order : Pairs) (exit : Coord) (l : Linking) : Prop :=
  ∀ l', Reaches map order l l' → ∀ dest ∈ nextDest order exit l', ∀ start,
    l'.making.shortestDistance map order l'.fromCoord dest = some (some start) → Stands map order l'.making start dest

/-- Whenever `shortest_distance` is asked for a start, it answers with a coordinate that can be passed. -/
def StartsPassable (map : MapRow) (order : Pairs) (exit : Coord) (l : Linking) : Prop :=
  ∀ l', Reaches map order l l' → ∀ dest ∈ nextDest order exit l', ∃ start,
    l'.making.shortestDistance map order l'.fromCoord dest = some (some start) ∧ l'.making.passable map start

/-- The first event to be linked stands straight next to the start and cannot be passed, and some other tile
next to the start can. -/
def Stuck (map : MapRow) (order : Pairs) (l : Linking) : Prop :=
  ∃ i event rest, order.visit l.toEvents = (i, event) :: rest ∧
    ∃ dest ∈ event.coord, Beside map l.making l.fromCoord dest

/-- A link has its start, or it raises. -/
theorem Linked.linkTo_spec (order : Pairs) {l : Linking} (hl : Linked map l) {dest : Coord}
    (hdest : map.validCoord dest) :
    (HasStart map l ∧ ∃ start, l.making.shortestDistance map order l.fromCoord dest = some (some start) ∧
        l.making.passable map start ∧ (start = l.fromCoord ∨ start ∈ l.making.roads) ∧
        l.making.linkTo map order l.fromCoord dest = l.making.linkEvent map order start dest) ∨
      (¬ HasStart map l ∧ l.making.shortestDistance map order l.fromCoord dest = some none ∧
        l.making.linkTo map order l.fromCoord dest = none) := by
  obtain ⟨start, hshort, hnone, hmem⟩ := shortestDistance_spec order l.fromCoord hdest hl.roads
  unfold linkTo HasStart
  cases start with
  | none =>
    have hno := hnone.1 rfl
    refine .inr ⟨?_, hshort, ?_⟩
    · rw [not_or, not_not]
      exact hno
    · simp only [hshort, Option.bind_eq_bind, Option.bind_some]
  | some start =>
    obtain ⟨hpass, hfrom⟩ := hmem start rfl
    refine .inl ⟨?_, start, hshort, hpass, hfrom, ?_⟩
    · by_contra hno
      rw [not_or, not_not] at hno
      exact absurd (hnone.2 hno) (by simp)
    · simp only [hshort, Option.bind_eq_bind, Option.bind_some]

theorem Linked.head {l : Linking} (hl : Linked map l) {i : ℕ} {event : Event} {rest : List (ℕ × Event)}
    (hvisit : order.visit l.toEvents = (i, event) :: rest) : (i, event) ∈ l.toEvents ∧ OnMap map event := by
  have hmem : (i, event) ∈ l.toEvents := by
    rw [← (order.visit_perm l.toEvents).mem_iff, hvisit]
    exact List.mem_cons_self
  exact ⟨hmem, hl.toEvents _ hmem⟩

/-- The roads can be passed after a road has been added to them. -/
theorem Linked.extend (order : Pairs) {l : Linking} (hl : Linked map l) {m' : Making} (hpaved : Paved map l.making m')
    {coords : List Coord} (hcoords : ∀ d ∈ coords, l.making.passable map d) (dest : Coord) (i : ℕ) :
    Linked map ⟨{ m' with roads := m'.roads ++ order.visit coords }, dest, l.toEvents.filter fun entry => entry.1 ≠ i⟩ where
  roads d hd := by
    rcases List.mem_append.1 hd with hold | hnew
    · rw [hpaved.roads] at hold
      exact hpaved.passable d (hl.roads d hold)
    · exact hpaved.passable d (hcoords d ((order.visit_perm coords).mem_iff.1 hnew))
  toEvents entry hentry := hl.toEvents entry (List.mem_filter.1 hentry).1

/-- **One turn.** It raises exactly if there is no start or the link does not stand; the roads are still passable
after it, and only a road without coordinates leaves none. -/
theorem Linked.linkTurn_spec {l : Linking} (hl : Linked map l) {i : ℕ} {event : Event} {rest : List (ℕ × Event)}
    (hvisit : order.visit l.toEvents = (i, event) :: rest) {dest : Coord} (hcoord : event.coord = some dest) :
    (∀ start, l.making.shortestDistance map order l.fromCoord dest = some (some start) →
      ((∃ r, linkTurn map order l i event = some r) ↔ Stands map order l.making start dest)) ∧
    ∀ l', linkTurn map order l i event = some (.inl l') → Linked map l' ∧ l'.toEvents.length < l.toEvents.length ∧
      (l'.making.roads = [] → l.making.roads = [] ∧ Beside map l.making l.fromCoord dest) := by
  obtain ⟨hmem, c, hc, hdest⟩ := hl.head hvisit
  obtain rfl : c = dest := Option.some.inj (hc.symm.trans hcoord)
  unfold linkTurn
  simp only [hcoord, Option.bind_eq_bind, Option.bind_some]
  rcases hl.linkTo_spec order hdest with ⟨-, start, hshort, hpass, hfrom, hlink⟩ | ⟨-, hshort, hlink⟩
  · rw [hlink]
    rcases l.making.linkEvent_spec map order start c with
      ⟨hstands, m', road, hevent, hpaved, hroad⟩ | ⟨hstands, hevent⟩
    · have hiff : ∀ {P : Prop}, P → ∀ start', l.making.shortestDistance map order l.fromCoord c = some (some start') →
          (P ↔ Stands map order l.making start' c) := by
        intro P hP start' hshort'
        obtain rfl : start = start' := Option.some.inj (Option.some.inj (hshort.symm.trans hshort'))
        exact iff_of_true hP hstands
      rw [hevent]
      cases road with
      | none => exact ⟨hiff ⟨_, rfl⟩, fun l' hl' => by simp at hl'⟩
      | some coords =>
        obtain ⟨hcoords, hnil⟩ := hroad coords rfl
        have hall : coords.all (m'.passable map) := List.all_eq_true.2 fun d hd => hpaved.passable d (hcoords d hd)
        simp only [Option.bind_some, if_pos hall, Option.pure_def]
        refine ⟨hiff ⟨_, rfl⟩, fun l' hl' => ?_⟩
        simp only [Option.some.injEq, Sum.inl.injEq] at hl'
        subst hl'
        refine ⟨hl.extend order hpaved hcoords c i, ?_, fun hroads => ?_⟩
        · exact List.length_filter_lt_length_iff_exists.2 ⟨(i, event), hmem, by simp⟩
        · obtain ⟨hbefore, hvisited⟩ := List.append_eq_nil_iff.1 hroads
          rw [hpaved.roads] at hbefore
          rcases hfrom with rfl | hold
          · have hperm := (order.visit_perm coords).symm
            rw [hvisited] at hperm
            exact ⟨hbefore, hnil hperm.eq_nil⟩
          · rw [hbefore] at hold
            exact absurd hold List.not_mem_nil
    · rw [hevent]
      refine ⟨fun start' hshort' => ?_, fun l' hl' => by simp at hl'⟩
      obtain rfl : start = start' := Option.some.inj (Option.some.inj (hshort.symm.trans hshort'))
      exact iff_of_false (by simp) hstands
  · rw [hlink]
    refine ⟨fun start' hshort' => ?_, fun l' hl' => by simp at hl'⟩
    rw [hshort] at hshort'
    exact absurd hshort' (by simp)

theorem Linked.goes {l l' : Linking} (hl : Linked map l) (hgoes : Goes map order l l') : Linked map l' := by
  obtain ⟨i, event, rest, hvisit, hturn⟩ := hgoes
  obtain ⟨-, dest, hdest, -⟩ := hl.head hvisit
  exact ((hl.linkTurn_spec hvisit hdest).2 l' hturn).1

/-- Once there is a road there always is one. -/
theorem Linked.roads_goes {l l' : Linking} (hl : Linked map l) (hroads : l.making.roads ≠ [])
    (hgoes : Goes map order l l') : l'.making.roads ≠ [] := by
  obtain ⟨i, event, rest, hvisit, hturn⟩ := hgoes
  obtain ⟨-, dest, hdest, -⟩ := hl.head hvisit
  exact fun hnil => hroads (((hl.linkTurn_spec hvisit hdest).2 l' hturn).2.2 hnil).1

theorem Linked.reaches {l l' : Linking} (hl : Linked map l) (hreaches : Reaches map order l l') :
    Linked map l' ∧ (l.making.roads ≠ [] → l'.making.roads ≠ []) := by
  induction hreaches with
  | refl => exact ⟨hl, id⟩
  | tail _ hgoes ih => exact ⟨ih.1.goes hgoes, fun hroads => ih.1.roads_goes (ih.2 hroads) hgoes⟩

/-- The destination of the next link is on the map. -/
theorem Linked.nextDest_valid (order : Pairs) {l : Linking} (hl : Linked map l) {exit : Coord}
    (hexit : map.validCoord exit) :
    ∃ dest, nextDest order exit l = some dest ∧ map.validCoord dest := by
  unfold nextDest
  cases hvisit : order.visit l.toEvents with
  | nil => exact ⟨exit, rfl, hexit⟩
  | cons entry rest => exact (hl.head (i := entry.1) hvisit).2

/-- Starts that can be passed, said of the states of the run. -/
theorem Linked.startsPassable_iff {l : Linking} (hl : Linked map l) {exit : Coord} (hexit : map.validCoord exit) :
    StartsPassable map order exit l ↔ ∀ l', Reaches map order l l' → HasStart map l' := by
  refine forall₂_congr fun l' hreaches => ?_
  have hl' := (hl.reaches hreaches).1
  obtain ⟨dest, hnext, hdest⟩ := hl'.nextDest_valid order hexit
  rw [hnext]
  simp only [Option.mem_def, Option.some.injEq, forall_eq']
  rcases hl'.linkTo_spec order hdest with ⟨hstart, start, hshort, hpass, -⟩ | ⟨hstart, hshort, -⟩
  · exact iff_of_true ⟨start, hshort, hpass⟩ hstart
  · refine iff_of_false ?_ hstart
    rintro ⟨start, hshort', -⟩
    rw [hshort] at hshort'
    exact absurd hshort' (by simp)

theorem linkEvents_nil {exit : Coord} {turns : ℕ} {l : Linking} (hvisit : order.visit l.toEvents = []) :
    linkEvents map order exit (turns + 1) l = l.making.linkTo map order l.fromCoord exit := by
  unfold linkEvents
  rw [hvisit]

theorem linkEvents_cons {exit : Coord} {turns : ℕ} {l : Linking} {i : ℕ} {event : Event} {rest : List (ℕ × Event)}
    (hvisit : order.visit l.toEvents = (i, event) :: rest) :
    linkEvents map order exit (turns + 1) l = (linkTurn map order l i event).bind fun
      | .inl l => linkEvents map order exit turns l
      | .inr m => some (m, none) := by
  conv_lhs => unfold linkEvents
  rw [hvisit]
  rfl

theorem goes_cons {l l' : Linking} {i : ℕ} {event : Event} {rest : List (ℕ × Event)}
    (hvisit : order.visit l.toEvents = (i, event) :: rest) :
    Goes map order l l' ↔ linkTurn map order l i event = some (.inl l') := by
  unfold Goes
  rw [hvisit]
  simp

theorem not_goes_nil {l l' : Linking} (hvisit : order.visit l.toEvents = []) : ¬ Goes map order l l' := by
  rintro ⟨i, event, rest, hcons, -⟩
  rw [hvisit] at hcons
  exact absurd hcons (by simp)

/-- All links stand if the next one does and all do after each turn there is. -/
theorem linksStand_iff {exit dest start : Coord} {l : Linking} (hnext : nextDest order exit l = some dest)
    (hshort : l.making.shortestDistance map order l.fromCoord dest = some (some start)) :
    LinksStand map order exit l ↔
      Stands map order l.making start dest ∧ ∀ l₁, Goes map order l l₁ → LinksStand map order exit l₁ := by
  constructor
  · exact fun h => ⟨h l .refl dest hnext start hshort, fun l₁ hgoes l' hreaches => h l' (hreaches.head hgoes)⟩
  · rintro ⟨hstands, hrest⟩ l' hreaches
    rcases hreaches.cases_head with rfl | ⟨l₁, hgoes, hreaches'⟩
    · intro dest' hdest' start' hshort'
      obtain rfl : dest = dest' := Option.some.inj (hnext.symm.trans hdest')
      obtain rfl : start = start' := Option.some.inj (Option.some.inj (hshort.symm.trans hshort'))
      exact hstands
    · exact hrest l₁ hgoes l' hreaches'

/-- **The run.** Where there is always a start, it returns exactly if every link stands. -/
theorem Linked.linkEvents_spec {exit : Coord} (hexit : map.validCoord exit) {turns : ℕ} {l : Linking}
    (hturns : l.toEvents.length < turns) (hl : Linked map l) (hstart : ∀ l', Reaches map order l l' → HasStart map l') :
    (∃ r, linkEvents map order exit turns l = some r) ↔ LinksStand map order exit l := by
  induction turns generalizing l with
  | zero => exact absurd hturns (Nat.not_lt_zero _)
  | succ turns ih =>
    obtain ⟨dest, hnext, hdest⟩ := hl.nextDest_valid order hexit
    rcases hl.linkTo_spec order hdest with ⟨-, start, hshort, -, -, hlink⟩ | ⟨hno, -⟩
    · rw [linksStand_iff hnext hshort]
      unfold nextDest at hnext
      cases hvisit : order.visit l.toEvents with
      | nil =>
        rw [hvisit] at hnext
        obtain rfl : exit = dest := Option.some.inj hnext
        rw [linkEvents_nil hvisit, hlink, and_iff_left fun l₁ hgoes => absurd hgoes (not_goes_nil hvisit)]
        rcases l.making.linkEvent_spec map order start exit with
          ⟨hstands, m', road, hevent, -⟩ | ⟨hstands, hevent⟩
        · exact iff_of_true ⟨_, hevent⟩ hstands
        · rw [hevent]
          exact iff_of_false (by simp) hstands
      | cons entry rest =>
        obtain ⟨i, event⟩ := entry
        rw [hvisit] at hnext
        obtain ⟨hsome, hinl⟩ := hl.linkTurn_spec hvisit hnext
        rw [linkEvents_cons hvisit, ← hsome start hshort]
        cases hturn : linkTurn map order l i event with
        | none => simp
        | some r =>
          cases r with
          | inr m =>
            refine iff_of_true ⟨_, rfl⟩ ⟨⟨_, rfl⟩, fun l₁ hgoes => ?_⟩
            rw [goes_cons hvisit, hturn] at hgoes
            exact absurd hgoes (by simp)
          | inl l₁ =>
            obtain ⟨hl₁, hshorter, -⟩ := hinl l₁ hturn
            have hgoes : Goes map order l l₁ := (goes_cons hvisit).2 hturn
            have hrest := ih (by omega) hl₁ fun l' hreaches => hstart l' (hreaches.head hgoes)
            rw [Option.bind_some, hrest]
            refine ⟨fun h => ⟨⟨_, rfl⟩, fun l₂ hgoes' => ?_⟩, fun h => h.2 l₁ hgoes⟩
            rw [goes_cons hvisit, hturn] at hgoes'
            obtain rfl : l₁ = l₂ := by simpa using hgoes'
            exact h
    · exact absurd (hstart l .refl) hno

/-- Where there is no start, the next link raises. -/
theorem Linked.linkEvents_eq_none (order : Pairs) {exit : Coord} (hexit : map.validCoord exit) {l : Linking}
    (hl : Linked map l)    (hno : ¬ HasStart map l) (turns : ℕ) : linkEvents map order exit turns l = none := by
  cases turns with
  | zero => rfl
  | succ turns =>
    have hnone : ∀ {dest}, map.validCoord dest → l.making.linkTo map order l.fromCoord dest = none := by
      intro dest hdest
      rcases hl.linkTo_spec order hdest with ⟨hstart, -⟩ | ⟨-, -, hlink⟩
      · exact absurd hstart hno
      · exact hlink
    cases hvisit : order.visit l.toEvents with
    | nil => rw [linkEvents_nil hvisit, hnone hexit]
    | cons entry rest =>
      obtain ⟨i, event⟩ := entry
      obtain ⟨-, dest, hcoord, hdest⟩ := hl.head hvisit
      rw [linkEvents_cons hvisit]
      unfold linkTurn
      simp only [hcoord, hnone hdest, Option.bind_eq_bind, Option.bind_some, Option.bind_none]

/-! ### The whole function -/

/-- A scene whose events have been laid: the entry on a tile that is moveable, an exit, all events on the map,
and no roads yet. Obstacles may lie anywhere. -/
structure Ready (map : MapRow) (order : Pairs) where
  making : Making
  entry : Coord
  exit : Coord
  entry_eq : (making.tilesEventFind order .entry).bind Event.coord = some entry
  exit_eq : (making.tilesEventFind order .exit).bind Event.coord = some exit
  entry_moveable : making.moveable map entry
  placed : ∀ event ∈ making.events, OnMap map event
  roads : making.roads = []

/-- The events of a generated scene are ready to be linked. -/
theorem PlacesAll.onMap {given : List EventSpec} {m : Making} (h : PlacesAll map given m) :
    ∀ event ∈ m.events, OnMap map event := by
  intro event hmem
  obtain ⟨c, hc⟩ := Option.isSome_iff_exists.1 (h.coords event hmem)
  exact ⟨c, hc, (h.inside event hmem c hc c (corner_mem_footprint event.row.toObjectRow c)).1⟩

namespace Ready

variable (s : Ready map order)

/-- The loop before its first turn. -/
def linking : Linking := ⟨s.making, s.entry, (s.making.sortEvents map order s.entry).getD []⟩

theorem entry_passable : s.making.passable map s.entry := passable_of_moveable s.entry_moveable

theorem exit_valid : map.validCoord s.exit := by
  obtain ⟨event, hfind, hcoord⟩ := Option.bind_eq_some_iff.1 s.exit_eq
  have hmem := (order.visit_perm s.making.events).mem_iff.1 (List.mem_of_find?_eq_some hfind)
  obtain ⟨c, hc, hvalid⟩ := s.placed event hmem
  obtain rfl : c = s.exit := Option.some.inj (hc.symm.trans hcoord)
  exact hvalid

theorem sortEvents_eq :
    s.making.sortEvents map order s.entry = some s.linking.toEvents ∧
      ∀ entry ∈ s.linking.toEvents, OnMap map entry.2 := by
  obtain ⟨toEvents, hsort, hplaced⟩ := sortEvents_spec order (m := s.making)
    (validCoord_of_passable s.entry_passable) s.placed
  have hto : s.linking.toEvents = toEvents := by
    unfold linking
    rw [hsort]
    rfl
  rw [hto]
  exact ⟨hsort, hplaced⟩

theorem linked : Linked map s.linking where
  roads c hc := by
    have hnil : s.linking.making.roads = [] := s.roads
    rw [hnil] at hc
    exact absurd hc List.not_mem_nil
  toEvents := s.sortEvents_eq.2

theorem tilesLinkEvents_eq :
    s.making.tilesLinkEvents map order = linkEvents map order s.exit (s.linking.toEvents.length + 1) s.linking := by
  obtain ⟨entry, hentry, hentryCoord⟩ := Option.bind_eq_some_iff.1 s.entry_eq
  obtain ⟨exit, hexit, hexitCoord⟩ := Option.bind_eq_some_iff.1 s.exit_eq
  have hvalid := validCoord_of_passable s.entry_passable
  unfold tilesLinkEvents
  simp only [hentry, hentryCoord, hexit, hexitCoord, hvalid, s.entry_moveable, s.sortEvents_eq.1,
    Option.bind_eq_bind, Option.bind_some, Bool.and_self, Bool.not_true, Bool.false_eq_true, if_false]
  rfl

/-- An event right next to the entry that cannot be passed is linked without a road, and leaves no start. -/
theorem goes_of_stuck (hstuck : Stuck map order s.linking) :
    ∃ l, Goes map order s.linking l ∧ ¬ HasStart map l := by
  obtain ⟨i, event, rest, hvisit, dest, hcoord, hbeside⟩ := hstuck
  obtain ⟨-, c, hc, hdest⟩ := s.linked.head hvisit
  obtain rfl : c = dest := Option.some.inj (hc.symm.trans hcoord)
  have hnil : order.visit ([] : List Coord) = [] := (order.visit_perm []).eq_nil
  rcases s.linked.linkTo_spec order hdest with ⟨-, start, hshort, -, hfrom, hlink⟩ | ⟨hno, -⟩
  · have hentry : start = s.entry := by
      rcases hfrom with hfrom | hroad
      · exact hfrom
      · have hroads : s.linking.making.roads = [] := s.roads
        rw [hroads] at hroad
        exact absurd hroad List.not_mem_nil
    have hevent : s.making.linkEvent map order s.entry c = some (s.making, some []) := by
      unfold linkEvent
      rw [findPath_of_beside s.entry_passable hbeside]
      simp only [hnil, List.foldlM_nil, Option.pure_def, Option.bind_eq_bind, Option.bind_some]
    have hturn : linkTurn map order s.linking i event =
        some (.inl ⟨s.making, c, s.linking.toEvents.filter fun entry => entry.1 ≠ i⟩) := by
      unfold linkTurn
      have hlinked : s.linking.making.linkTo map order s.linking.fromCoord c = some (s.making, some []) := by
        rw [hlink, hentry]
        exact hevent
      simp only [hc, hlinked, hnil, Option.bind_eq_bind, Option.bind_some, List.all_nil, if_true, List.append_nil]
      rfl
    refine ⟨_, (goes_cons hvisit).2 hturn, ?_⟩
    rintro (hpass | hroads)
    · exact hbeside.blocked hpass
    · exact hroads s.roads
  · exact absurd (.inl s.entry_passable) hno

/-- There is a start for every link, unless the first one leaves none. -/
theorem hasStart_iff : (∀ l, Reaches map order s.linking l → HasStart map l) ↔ ¬ Stuck map order s.linking := by
  constructor
  · intro hstart hstuck
    obtain ⟨l, hgoes, hno⟩ := s.goes_of_stuck hstuck
    exact hno (hstart l (.single hgoes))
  · intro hstuck l hreaches
    rcases hreaches.cases_head with rfl | ⟨l₁, ⟨i, event, rest, hvisit, hturn⟩, hrest⟩
    · exact .inl s.entry_passable
    · obtain ⟨-, dest, hcoord, -⟩ := s.linked.head hvisit
      obtain ⟨hl₁, -, hroads⟩ := (s.linked.linkTurn_spec hvisit hcoord).2 l₁ hturn
      refine .inr ((hl₁.reaches hrest).2 fun hnil => hstuck ⟨i, event, rest, hvisit, dest, hcoord, ?_⟩)
      exact (hroads hnil).2

/-- **When linking does not raise.** From a scene whose events are laid, `tiles_link_events` returns exactly if
its first event does not stand straight next to the entry, blocked, while another tile next to the entry is
free, and every link that is tried stands. The first of it is also when every start that `shortest_distance` is
asked for is a coordinate that can be passed. -/
theorem link_events_iff {map : MapRow} {order : Pairs} (s : Ready map order) :
    ((∃ m road, s.making.tilesLinkEvents map order = some (m, road)) ↔
      ¬ Stuck map order s.linking ∧ LinksStand map order s.exit s.linking) ∧
    (StartsPassable map order s.exit s.linking ↔ ¬ Stuck map order s.linking) := by
  rw [s.tilesLinkEvents_eq, s.linked.startsPassable_iff s.exit_valid, s.hasStart_iff, ← Prod.exists']
  refine ⟨?_, Iff.rfl⟩
  by_cases hstuck : Stuck map order s.linking
  · refine iff_of_false ?_ fun h => h.1 hstuck
    obtain ⟨l, hgoes, hno⟩ := s.goes_of_stuck hstuck
    have hgoes' := hgoes
    obtain ⟨i, event, rest, hvisit, hturn⟩ := hgoes'
    have hnone := (s.linked.goes hgoes).linkEvents_eq_none order s.exit_valid hno s.linking.toEvents.length
    rw [linkEvents_cons hvisit, hturn]
    simp [hnone]
  · rw [and_iff_right hstuck]
    exact s.linked.linkEvents_spec s.exit_valid (Nat.lt_succ_self _) (s.hasStart_iff.2 hstuck)

end Ready

/-- A map of two rows of two tiles. -/
def square : MapRow where
  width := 2
  height := 2
  chessboard := true
  tileObstacles := [floorRow]
  width_pos := strip.width_pos
  height_pos := strip.width_pos
  tileObstacles_ne := strip.tileObstacles_ne
  tileObstacles_block := strip.tileObstacles_block

/-- A shop, which is never passed. -/
def shopRow : ObjectRow where
  base := ⟨1, 1, .static, some .none⟩
  requireTile := false
  width_pos := by decide
  height_pos := by decide

/-- The entry at `(0, 0)`, a shop next to it at `(1, 0)`, the exit at `(1, 1)`. -/
def shopNextToEntry : Making where
  tiles c :=
    if c = ⟨0, 0⟩ then some (.reset [⟨⟨.event, 1⟩, floorRow.base⟩])
    else if c = ⟨1, 0⟩ then some (.reset [⟨⟨.event, 2⟩, shopRow.base⟩])
    else if c = ⟨1, 1⟩ then some (.reset [⟨⟨.event, 3⟩, floorRow.base⟩])
    else none
  events := [⟨1, ⟨floorRow, .entry⟩, some ⟨0, 0⟩⟩, ⟨2, ⟨shopRow, .shopBuyCard⟩, some ⟨1, 0⟩⟩, ⟨3, ⟨floorRow, .exit⟩, some ⟨1, 1⟩⟩]
  obstacles := []
  roads := []
  seed := 0
  eventId := 3
  obstacleId := 0
  events_le := by decide
  events_nodup := by decide
  obstacles_le := by decide

/-- It is ready to be linked. -/
def shopReady : Ready square Pairs.inOrder where
  making := shopNextToEntry
  entry := ⟨0, 0⟩
  exit := ⟨1, 1⟩
  entry_eq := by decide
  exit_eq := by decide
  entry_moveable := by decide
  placed := by
    intro event hmem
    simp only [shopNextToEntry, List.mem_cons, List.not_mem_nil, or_false] at hmem
    rcases hmem with rfl | rfl | rfl
    · exact ⟨⟨0, 0⟩, rfl, by decide⟩
    · exact ⟨⟨1, 0⟩, rfl, by decide⟩
    · exact ⟨⟨1, 1⟩, rfl, by decide⟩
  roads := rfl

/-- After the shop there is no start for the link to the exit. -/
theorem link_events_raises :
    ¬ ∀ (map : MapRow) (order : Pairs) (s : Ready map order),
      ∃ m road, s.making.tilesLinkEvents map order = some (m, road) := by
  intro h
  obtain ⟨m, road, hlink⟩ := h square Pairs.inOrder shopReady
  have hnone : (shopNextToEntry.tilesLinkEvents square Pairs.inOrder).isNone := by decide
  rw [show shopReady.making = shopNextToEntry from rfl] at hlink
  rw [hlink] at hnone
  exact absurd hnone (by simp)

end Making

end Slam.Grid
