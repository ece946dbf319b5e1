import Slam.Scene.Generator

/-!
# Generated scenes are connected

A link starts where a walk from the entry can get: at a coordinate of a road, or at that of the event before, which
the walk touches and which can be passed. So its road can be walked, and touches the next event (`Joined`). The
passes before the links do not matter for that, and the tiles that are laid later block nothing. Events of the
category `EXIT` are left out of the loop; one of them, the first that is found, is linked at the end.
-/

namespace Slam.Grid

open Slam.Astar Slam.Random
open Slam.Game (EventCategory)

namespace Making

/-- A walk over coordinates that can be passed, each straight next to the one before. -/
inductive Walk (map : MapRow) (m : Making) (entry : Coord) : Coord → Prop
  | start (hpass : m.passable map entry) : Walk map m entry entry
  | step {u v : Coord} (hwalk : Walk map m entry u) (hadj : Adjacent u v) (hpass : m.passable map v) :
      Walk map m entry v

/-- A walk ends at the coordinate, or straight next to it. -/
def Touches (map : MapRow) (m : Making) (entry dest : Coord) : Prop := ∃ c, Walk map m entry c ∧ cost c dest ≤ 1

variable {map : MapRow} {order : Pairs} {m m' : Making} {entry : Coord}

namespace Walk

theorem passable {c : Coord} (h : Walk map m entry c) : m.passable map c := by
  cases h with
  | start hpass => exact hpass
  | step _ _ hpass => exact hpass

theorem mono (hkeeps : ∀ c, m.passable map c → m'.passable map c) {c : Coord} (h : Walk map m entry c) :
    Walk map m' entry c := by
  induction h with
  | start hpass => exact .start (hkeeps entry hpass)
  | step _ hadj hpass ih => exact .step ih hadj (hkeeps _ hpass)

/-- What a walk touches it can enter if it can be passed. -/
theorem enter {c dest : Coord} (h : Walk map m entry c) (hclose : cost c dest ≤ 1) (hpass : m.passable map dest) :
    Walk map m entry dest := by
  by_cases hsame : cost c dest = 0
  · obtain rfl := cost_eq_zero.1 hsame
    exact h
  · exact .step h (le_antisymm hclose (Nat.one_le_iff_ne_zero.2 hsame)) hpass

/-- Along a chain of coordinates that can be passed. -/
theorem chain {u : Coord} {coords : List Coord} (h : Walk map m entry u) (hchain : (u :: coords).IsChain Adjacent)
    (hpass : ∀ c ∈ coords, m.passable map c) : ∀ c ∈ coords, Walk map m entry c := by
  induction coords generalizing u with
  | nil => exact fun c hc => absurd hc List.not_mem_nil
  | cons d coords ih =>
    obtain ⟨hadj, hrest⟩ := List.isChain_cons_cons.1 hchain
    have hd : Walk map m entry d := .step h hadj (hpass d List.mem_cons_self)
    intro c hc
    rcases List.mem_cons.1 hc with rfl | hmem
    · exact hd
    · exact ih hd hrest (fun c hc => hpass c (List.mem_cons_of_mem d hc)) c hmem

end Walk

theorem Touches.mono (hkeeps : ∀ c, m.passable map c → m'.passable map c) {dest : Coord}
    (h : Touches map m entry dest) : Touches map m' entry dest := by
  obtain ⟨c, hwalk, hclose⟩ := h
  exact ⟨c, hwalk.mono hkeeps, hclose⟩

theorem Touches.enter {dest : Coord} (h : Touches map m entry dest) (hpass : m.passable map dest) :
    Walk map m entry dest := by
  obtain ⟨c, hwalk, hclose⟩ := h
  exact hwalk.enter hclose hpass

/-! ### One link -/

/-- A road that `FindPath` answers with can be walked from its start, and touches its destination. -/
theorem Walk.findPath {start dest : Coord} (hstart : Walk map m entry start) {road : List Coord}
    (hfind : Astar.findPath (m.query map start dest) = .roads road) :
    (∀ c ∈ road, Walk map m entry c) ∧ Touches map m entry dest := by
  rcases findPath_sound rfl hfind with hpath | ⟨hsame, -, rfl⟩ | ⟨hclose, -, rfl⟩
  · have hroad : ∀ c ∈ road.reverse, Walk map m entry c :=
      hstart.chain hpath.chain fun c hc => hpath.moveable c (List.mem_reverse.1 hc)
    obtain ⟨c, hc, harrives⟩ := hpath.arrives
    have hlast : Walk map m entry c := hroad c (List.mem_reverse.2 (List.mem_of_mem_head? hc))
    refine ⟨fun c hc => hroad c (List.mem_reverse.2 hc), c, hlast, ?_⟩
    split_ifs at harrives
    · rw [show c = dest from harrives, cost_eq_zero.2 rfl]
      exact Nat.zero_le 1
    · exact harrives.le
  · obtain rfl : start = dest := hsame
    exact ⟨fun c hc => List.mem_singleton.1 hc ▸ hstart, start, hstart, (cost_eq_zero.2 rfl).trans_le (Nat.zero_le 1)⟩
  · exact ⟨fun c hc => absurd hc List.not_mem_nil, start, hstart, hclose⟩

/-- What paving leaves can be passed as before. -/
theorem paved_of_foldlM {coords : List Coord} (hvalid : ∀ c ∈ coords, map.validCoord c)
    (hpave : coords.foldlM (pave map order) m = some m') : Paved map m m' := by
  rcases foldlM_pave order hvalid m with ⟨-, m₁, hsome, hpaved⟩ | ⟨-, hnone⟩
  · obtain rfl : m₁ = m' := Option.some.inj (hsome.symm.trans hpave)
    exact hpaved
  · rw [hnone] at hpave
    cases hpave

/-- The loop of `shortest_distance`: what it chooses can be passed. -/
theorem mem_of_foldlM_nearer {dest : Coord} {coords : List Coord} {best best' : Option (Coord × ℕ)}
    (hfold : coords.foldlM (m.nearer map dest) best = some best') :
    ∀ p ∈ best', p ∈ best ∨ m.passable map p.1 ∧ p.1 ∈ coords := by
  let Chosen : Option (Coord × ℕ) → Prop := fun b => ∀ p ∈ b, p ∈ best ∨ m.passable map p.1 ∧ p.1 ∈ coords
  refine foldlM_keeps (P := Chosen) (fun c hc b b' hchosen hnearer => ?_) (fun p hp => .inl hp) hfold
  unfold nearer at hnearer
  split_ifs at hnearer with hpass
  obtain ⟨d, -, hnearer⟩ := Option.bind_eq_some_iff.1 hnearer
  cases b with
  | none =>
    obtain rfl := Option.some.inj hnearer
    intro p hp
    obtain rfl : (c, d) = p := Option.some.inj hp
    exact .inr ⟨hpass, hc⟩
  | some q =>
    simp only at hnearer
    split_ifs at hnearer
    · obtain rfl := Option.some.inj hnearer
      intro p hp
      obtain rfl : (c, d) = p := Option.some.inj hp
      exact .inr ⟨hpass, hc⟩
    · obtain rfl := Option.some.inj hnearer
      exact hchosen

/-- The start that is chosen can be passed, and is the event before or on a road. -/
theorem mem_of_shortestDistance {src dest start : Coord}
    (hshort : m.shortestDistance map order src dest = some (some start)) :
    m.passable map start ∧ (start = src ∨ start ∈ m.roads) := by
  have hrest : ∀ first : Option (Coord × ℕ), (∀ p ∈ first, m.passable map src ∧ p.1 = src) →
      (((order.visit m.roads).foldlM (m.nearer map dest) first).bind fun best => some (best.map Prod.fst)) =
        some (some start) →
      m.passable map start ∧ (start = src ∨ start ∈ m.roads) := by
    intro first hfirst hfold
    obtain ⟨best, hbest, hfst⟩ := Option.bind_eq_some_iff.1 hfold
    obtain ⟨p, hp, rfl⟩ := Option.map_eq_some_iff.1 (Option.some.inj hfst)
    rcases mem_of_foldlM_nearer hbest p hp with hold | ⟨hpass, hmem⟩
    · obtain ⟨hpass, hsrc⟩ := hfirst p hold
      exact ⟨hsrc ▸ hpass, .inl hsrc⟩
    · exact ⟨hpass, .inr ((order.visit_perm m.roads).mem_iff.1 hmem)⟩
  unfold shortestDistance at hshort
  by_cases hsrc : m.passable map src
  · rw [if_pos hsrc] at hshort
    obtain ⟨first, hfirst, hshort⟩ := Option.bind_eq_some_iff.1 hshort
    obtain ⟨d, -, rfl⟩ := Option.map_eq_some_iff.1 hfirst
    refine hrest (some (src, d)) (fun p hp => ?_) hshort
    obtain rfl : (src, d) = p := Option.some.inj hp
    exact ⟨hsrc, rfl⟩
  · rw [if_neg hsrc] at hshort
    obtain ⟨first, hfirst, hshort⟩ := Option.bind_eq_some_iff.1 hshort
    obtain rfl := Option.some.inj hfirst
    exact hrest none (fun p hp => by cases hp) hshort

/-- A link from a start that a walk can get to. -/
theorem Touches.linkTo {src dest : Coord} (hsrc : Touches map m entry src)
    (hroads : ∀ c ∈ m.roads, Walk map m entry c) {road : List Coord}
    (hlink : m.linkTo map order src dest = some (m', some road)) :
    Paved map m m' ∧ (∀ c ∈ road, Walk map m entry c) ∧ Touches map m entry dest := by
  obtain ⟨start, hshort, hlink⟩ := linkTo_cases hlink
  obtain ⟨hpass, hfrom⟩ := mem_of_shortestDistance hshort
  have hstart : Walk map m entry start := by
    rcases hfrom with rfl | hroad
    · exact hsrc.enter hpass
    · exact hroads start hroad
  unfold linkEvent at hlink
  cases hfind : Astar.findPath (m.query map start dest) with
  | raised => simp [hfind] at hlink
  | failure errorstring => simp [hfind] at hlink
  | roads coords =>
    simp only [hfind] at hlink
    obtain ⟨m₁, hpave, hlink⟩ := Option.bind_eq_some_iff.1 hlink
    obtain ⟨rfl, hroad⟩ := Prod.mk.inj (Option.some.inj hlink)
    obtain rfl := Option.some.inj hroad
    obtain ⟨hwalk, htouch⟩ := hstart.findPath hfind
    refine ⟨paved_of_foldlM (fun c hc => ?_) hpave, hwalk, htouch⟩
    exact validCoord_of_passable (hwalk c ((order.visit_perm coords).mem_iff.1 hc)).passable

/-! ### The loop -/

/-- The event is touched by a walk from the entry. -/
def EventTouched (map : MapRow) (m : Making) (entry : Coord) (event : Event) : Prop :=
  ∃ dest, event.coord = some dest ∧ Touches map m entry dest

/-- What has been linked can be walked to, and the rest is still to come. -/
structure Joined (map : MapRow) (entry : Coord) (l : Linking) : Prop where
  roads : ∀ c ∈ l.making.roads, Walk map l.making entry c
  fromCoord : Touches map l.making entry l.fromCoord
  keys : (l.toEvents.map Prod.fst).Nodup
  events : ∀ event ∈ l.making.events, event.row.category ≠ .entry → event.row.category ≠ .exit →
    (∃ i, (i, event) ∈ l.toEvents) ∨ EventTouched map l.making entry event

/-- **One turn.** The event that is linked is touched, and what could be walked still can. -/
theorem Joined.goes {l l' : Linking} (hl : Joined map entry l) (hgoes : Goes map order l l') :
    Joined map entry l' ∧ l'.making.events = l.making.events := by
  obtain ⟨i, event, rest, hvisit, hturn⟩ := hgoes
  obtain ⟨dest, m₁, road, hdest, hlink, ⟨-, hr⟩ | ⟨coords, rfl, hr⟩⟩ := linkTurn_cases hturn
  · cases hr
  obtain rfl := Sum.inl.inj hr
  obtain ⟨hpaved, hwalk, htouch⟩ := hl.fromCoord.linkTo hl.roads hlink
  have hmem : (i, event) ∈ l.toEvents := by
    rw [← (order.visit_perm l.toEvents).mem_iff, hvisit]
    exact List.mem_cons_self
  have hkeeps : ∀ c, l.making.passable map c →
      passable map { m₁ with roads := m₁.roads ++ order.visit coords } c := hpaved.passable
  refine ⟨⟨fun c hc => ?_, htouch.mono hkeeps, hl.keys.sublist (List.filter_sublist.map Prod.fst),
    fun other hother hentry hexit => ?_⟩, hpaved.events⟩
  · have hold : Walk map l.making entry c := by
      rcases List.mem_append.1 hc with hbefore | hnew
      · rw [hpaved.roads] at hbefore
        exact hl.roads c hbefore
      · exact hwalk c ((order.visit_perm coords).mem_iff.1 hnew)
    exact hold.mono hkeeps
  · have hother' : other ∈ l.making.events := hpaved.events ▸ hother
    rcases hl.events other hother' hentry hexit with ⟨j, hj⟩ | ⟨c, hc, hbefore⟩
    · by_cases hkey : j = i
      · -- a key comes once, so it is the event that was linked
        obtain ⟨-, rfl⟩ := Prod.mk.inj (List.inj_on_of_nodup_map hl.keys hj hmem hkey)
        exact .inr ⟨dest, hdest, htouch.mono hkeeps⟩
      · exact .inl ⟨j, List.mem_filter.2 ⟨hj, by simpa using hkey⟩⟩
    · exact .inr ⟨c, hc, hbefore.mono hkeeps⟩

/-- **The loop.** -/
theorem Joined.reaches {l l' : Linking} (hl : Joined map entry l) (hreaches : Reaches map order l l') :
    Joined map entry l' ∧ l'.making.events = l.making.events := by
  induction hreaches with
  | refl => exact ⟨hl, rfl⟩
  | tail _ hgoes ih =>
    obtain ⟨hnext, hevents⟩ := ih.1.goes hgoes
    exact ⟨hnext, hevents.trans ih.2⟩

theorem ne_of_freeDistance {t : List (ℕ × Event)} {turns distance d : ℕ} (hfree : freeDistance t turns distance = some d) :
    d ∉ t.map Prod.fst := by
  induction turns generalizing distance with
  | zero => cases hfree
  | succ turns ih =>
    unfold freeDistance at hfree
    split_ifs at hfree with htaken
    · exact ih hfree
    · obtain rfl := Option.some.inj hfree
      intro hmem
      obtain ⟨entry, hentry, hkey⟩ := List.mem_map.1 hmem
      exact htaken (List.any_eq_true.2 ⟨entry, hentry, beq_iff_eq.2 hkey⟩)

/-- The loop of `sort_events`: the keys stay apart, and no event that counts is missing. -/
theorem foldlM_sortEvent {fromCoord : Coord} {events : List Event} {t t' : List (ℕ × Event)}
    (hsort : events.foldlM (sortEvent map fromCoord) t = some t') (hkeys : (t.map Prod.fst).Nodup) :
    (t'.map Prod.fst).Nodup ∧ t ⊆ t' ∧ ∀ event ∈ events, event.row.category ≠ .entry → event.row.category ≠ .exit →
      ∃ i, (i, event) ∈ t' := by
  induction events generalizing t with
  | nil =>
    obtain rfl : t = t' := Option.some.inj hsort
    exact ⟨hkeys, List.Subset.refl t, fun event hmem => absurd hmem List.not_mem_nil⟩
  | cons event events ih =>
    rw [List.foldlM_cons] at hsort
    obtain ⟨t₁, hfirst, hrest⟩ := Option.bind_eq_some_iff.1 hsort
    have hstep : (t₁.map Prod.fst).Nodup ∧ t ⊆ t₁ ∧
        (event.row.category ≠ .entry → event.row.category ≠ .exit → ∃ i, (i, event) ∈ t₁) := by
      unfold sortEvent at hfirst
      split_ifs at hfirst with hcategory
      · obtain ⟨c, -, hfirst⟩ := Option.bind_eq_some_iff.1 hfirst
        obtain ⟨d₀, -, hfirst⟩ := Option.bind_eq_some_iff.1 hfirst
        obtain ⟨d, hfree, hfirst⟩ := Option.bind_eq_some_iff.1 hfirst
        obtain rfl := Option.some.inj hfirst
        refine ⟨?_, List.subset_append_left t _, fun _ _ => ⟨d, List.mem_append_right t (List.mem_singleton_self _)⟩⟩
        rw [List.map_append, List.map_singleton]
        refine List.nodup_append.2 ⟨hkeys, List.nodup_singleton d, fun k hk k' hk' heq => ?_⟩
        have hsame : k = d := heq.trans (List.mem_singleton.1 hk')
        exact ne_of_freeDistance hfree (hsame ▸ hk)
      · obtain rfl := Option.some.inj hfirst
        exact ⟨hkeys, List.Subset.refl t, fun hentry hexit => absurd ⟨hentry, hexit⟩ hcategory⟩
    obtain ⟨hkeys', hsub, hall⟩ := ih hrest hstep.1
    refine ⟨hkeys', List.Subset.trans hstep.2.1 hsub, fun e he hentry hexit => ?_⟩
    rcases List.mem_cons.1 he with rfl | hmem
    · obtain ⟨i, hi⟩ := hstep.2.2 hentry hexit
      exact ⟨i, hsub hi⟩
    · exact hall e hmem hentry hexit

/-- `sort_events` takes all events but those of the categories `ENTRY` and `EXIT`, each at a key of its own. -/
theorem sortEvents_keys {fromCoord : Coord} {toEvents : List (ℕ × Event)}
    (hsort : m.sortEvents map order fromCoord = some toEvents) :
    (toEvents.map Prod.fst).Nodup ∧ ∀ event ∈ m.events, event.row.category ≠ .entry → event.row.category ≠ .exit →
      ∃ i, (i, event) ∈ toEvents := by
  obtain ⟨hkeys, -, hall⟩ := foldlM_sortEvent hsort List.nodup_nil
  exact ⟨hkeys, fun event hmem => hall event ((order.visit_perm m.events).mem_iff.2 hmem)⟩

/-- What `tiles_link_events` links. -/
theorem tilesLinkEvents_touches {road : List Coord} (hroads : m.roads = [])
    (hlink : m.tilesLinkEvents map order = some (m', some road)) :
    ∃ entry exit, (m.tilesEventFind order .entry).bind Event.coord = some entry ∧
      (m.tilesEventFind order .exit).bind Event.coord = some exit ∧ m'.events = m.events ∧
      Touches map m' entry exit ∧
      ∀ event ∈ m'.events, event.row.category ≠ .entry → event.row.category ≠ .exit → EventTouched map m' entry event := by
  obtain ⟨entry, exit, toEvents, hentry, hexit, hmoveable, hsort, hlinks⟩ := tilesLinkEvents_cases hlink
  obtain ⟨l', hreaches, hvisit, hlast⟩ := linkEvents_cases hlinks
  have hnone : l'.toEvents = [] := by
    have hperm := (order.visit_perm l'.toEvents).symm
    rw [hvisit] at hperm
    exact hperm.eq_nil
  obtain ⟨hkeys, hall⟩ := sortEvents_keys hsort
  have hwalk : Walk map m entry entry := .start (passable_of_moveable hmoveable)
  have hstart : Joined map entry ⟨m, entry, toEvents⟩ := by
    refine ⟨fun c hc => ?_, ⟨entry, hwalk, (cost_eq_zero.2 rfl).trans_le (Nat.zero_le 1)⟩, hkeys, fun event hmem hentry hexit =>
      .inl (hall event hmem hentry hexit)⟩
    have hc' : c ∈ m.roads := hc
    rw [hroads] at hc'
    exact absurd hc' List.not_mem_nil
  obtain ⟨hl', hevents⟩ := hstart.reaches hreaches
  obtain ⟨hpaved, -, htouch⟩ := hl'.fromCoord.linkTo hl'.roads hlast
  refine ⟨entry, exit, hentry, hexit, hpaved.events.trans hevents, htouch.mono hpaved.passable,
    fun event hmem hentry hexit => ?_⟩
  rcases hl'.events event (hpaved.events ▸ hmem) hentry hexit with ⟨i, hi⟩ | ⟨dest, hdest, hbefore⟩
  · rw [hnone] at hi
    exact absurd hi List.not_mem_nil
  · exact ⟨dest, hdest, hbefore.mono hpaved.passable⟩

/-! ### The generated scene -/

namespace Generated

variable {row : SceneRow} {eventsBase : List EventSpec}

/-- The roads are those of the links alone. -/
theorem roads_nil (g : Generated order row eventsBase m') : g.blocked.roads = [] := by
  have hlaid := (tilesEventGenerator_edits g.laid_eq).1
  have hrest := (obstacleSTICKGenerator_edits g.stuck_eq).trans (obstacleBLOCKGenerator_edits g.blocked_eq)
  exact EventEdits.roads (hlaid.trans (Edits.eventEdits hrest))

/-- The padding leaves what can be passed. -/
theorem paved (g : Generated order row eventsBase m') : Paved row.toMapRow g.linked m' :=
  paved_of_foldlM (fun _ hc => mem_grid.1 hc) g.padded_eq

end Generated

/-- **Generated scenes are connected.** When `generator` has returned true, a walk from the entry touches every event
of another category than `ENTRY` and `EXIT`, and the exit that is found. -/
theorem generated_connected {order : Pairs} {row : SceneRow} {eventsBase : List EventSpec} {m m' : Making}
    (h : generator order row eventsBase m = some (m', true)) :
    ∃ entry, (m'.tilesEventFind order .entry).bind Event.coord = some entry ∧
      ∀ event ∈ m'.events, event.row.category ≠ .entry →
        (event.row.category = .exit → m'.tilesEventFind order .exit = some event) →
        EventTouched row.toMapRow m' entry event := by
  obtain ⟨g⟩ := generated_of_generator h
  obtain ⟨entry, exit, hentry, hexit, hevents, htouch, hall⟩ := tilesLinkEvents_touches g.roads_nil g.linked_eq
  have hpaved := g.paved
  have hsame : m'.events = g.blocked.events := hpaved.events.trans hevents
  unfold tilesEventFind at hentry hexit ⊢
  rw [hsame]
  refine ⟨entry, hentry, fun event hmem hnotEntry hfound => ?_⟩
  by_cases hcategory : event.row.category = .exit
  · rw [hfound hcategory] at hexit
    exact ⟨exit, hexit, htouch.mono hpaved.passable⟩
  · obtain ⟨dest, hdest, hbefore⟩ := hall event (hevents ▸ hmem) hnotEntry hcategory
    exact ⟨dest, hdest, hbefore.mono hpaved.passable⟩

/-- A row of four tiles: the entry, an exit, a rock, and another exit. -/
def twoExits : SceneRow where
  width := 4
  height := 1
  chessboard := true
  tileObstacles := [floorRow]
  width_pos := by decide
  height_pos := strip.height_pos
  tileObstacles_ne := strip.tileObstacles_ne
  tileObstacles_block := strip.tileObstacles_block
  stickEvents := [⟨⟨floorRow, .entry⟩, some ⟨0, 0⟩⟩, ⟨⟨floorRow, .exit⟩, some ⟨1, 0⟩⟩, ⟨⟨floorRow, .exit⟩, some ⟨3, 0⟩⟩]
  stickObstacles := [⟨shopRow, some ⟨2, 0⟩⟩]
  obstacles := []

/-- What `generator` makes of it. -/
def twoExitsMade : Making × Bool := (generator Pairs.inOrder twoExits [] blank).getD (blank, false)

theorem twoExits_made : generator Pairs.inOrder twoExits [] blank = some (twoExitsMade.1, true) := by
  have hsome : (generator Pairs.inOrder twoExits [] blank).isSome := by decide
  have htrue : twoExitsMade.2 = true := by decide
  rw [← htrue]
  obtain ⟨r, hr⟩ := Option.isSome_iff_exists.1 hsome
  rw [twoExitsMade, hr]
  rfl

/-- The entry and the exit next to it are connected. -/
theorem generated_connected_twoExits :
    ∃ entry, (twoExitsMade.1.tilesEventFind Pairs.inOrder .entry).bind Event.coord = some entry ∧
      ∀ event ∈ twoExitsMade.1.events, event.row.category ≠ .entry →
        (event.row.category = .exit → twoExitsMade.1.tilesEventFind Pairs.inOrder .exit = some event) →
        EventTouched twoExits.toMapRow twoExitsMade.1 entry event :=
  generated_connected twoExits_made

/-- No walk passes the rock. -/
theorem not_generated_connected :
    ¬ ∀ (order : Pairs) (row : SceneRow) (eventsBase : List EventSpec) (m m' : Making),
      generator order row eventsBase m = some (m', true) →
      ∃ entry, (m'.tilesEventFind order .entry).bind Event.coord = some entry ∧
        ∀ event ∈ m'.events, event.row.category ≠ .entry → EventTouched row.toMapRow m' entry event := by
  intro h
  obtain ⟨entry, hentry, hall⟩ := h _ _ _ _ _ twoExits_made
  have hfound : (twoExitsMade.1.tilesEventFind Pairs.inOrder .entry).bind Event.coord = some ⟨0, 0⟩ := by decide
  obtain rfl := Option.some.inj (hentry.symm.trans hfound)
  have hrock : twoExitsMade.1.passable twoExits.toMapRow ⟨2, 0⟩ = false := by decide
  have hleft : ∀ c, Walk twoExits.toMapRow twoExitsMade.1 ⟨0, 0⟩ c → c.x ≤ 1 := by
    intro c hwalk
    induction hwalk with
    | start => decide
    | @step u v _ hadj hpass ih =>
      have hvalid := validCoord_iff.1 (validCoord_of_passable hpass)
      by_contra hright
      have hx : v.x = 2 := by
        unfold Adjacent cost at hadj
        omega
      have hy : v.y = 0 := by
        have hheight : twoExits.toMapRow.height = 1 := rfl
        omega
      have hv : v = ⟨2, 0⟩ := by
        obtain ⟨x, y⟩ := v
        dsimp only at hx hy
        rw [hx, hy]
      rw [hv, hrock] at hpass
      cases hpass
  have hexit : twoExitsMade.1.events.any fun event => event.row.category == .exit && event.coord == some ⟨3, 0⟩ := by
    decide
  obtain ⟨event, hmem, hevent⟩ := List.any_eq_true.1 hexit
  rw [Bool.and_eq_true, beq_iff_eq, beq_iff_eq] at hevent
  obtain ⟨dest, hdest, c, hwalk, hclose⟩ := hall event hmem (by rw [hevent.1]; decide)
  obtain rfl := Option.some.inj (hevent.2.symm.trans hdest)
  have hx := hleft c hwalk
  unfold cost at hclose
  dsimp only at hclose
  omega

end Making

end Slam.Grid
