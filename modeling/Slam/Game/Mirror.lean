import Slam.Game.Announce
import Slam.Game.Conservation

/-!
# The client's copy follows the pack

Whatever is done to the pack of a living entity, in whatever order, the client is told in such a way that
its copy of the pack is right again at the end of each call (`Mirrored`), and none of its assertions
fails. The invariant is `World.Orderly`: nothing is in a table of the pack twice, the cards and items can
be made again, and neither the entity nor its pack is within reach of the destructor of a puppet. It
speaks of the pack that is put aside during a match as well, since that one comes back at the end.

A match is entered with a pack that is not one of a match yet. That is how `Match.start` uses
`enter_match`: the entities of a match are made for the copy.
-/

namespace Slam.Game

open Raising Track

variable {env : Env}

/-! ### The calls -/

/-- The calls that change a pack or tell the client about it. -/
inductive BagCall
  | addCard (baseid : ℤ)
  | removeCard (card : ℤ)
  | addItem (baseid number : ℤ)
  | removeItem (item number : ℤ)
  | addEquip (item : ℤ) (slot : Option ℤ)
  | removeEquip (slot : Option ℤ)
  | lineUp (call : LineUpCall)
  | addGold (value : ℤ)
  | notifyClient
  | enterMatch
  | exitMatch

/-- A call; what it returns is of no interest here. -/
def BagCall.run (env : Env) (fuel : ℕ) (e : ℤ) : BagCall → Run Unit
  | addCard baseid => discard <| Game.addCard env e baseid
  | removeCard card => Game.removeCard e card
  | addItem baseid number => Game.addItem env e baseid number
  | removeItem item number => Game.removeItem e item number
  | addEquip item (some slot) => Game.addEquip e item slot
  | addEquip item none => do Game.addEquip e item ((← getPack e).equips.length + 1)
  | removeEquip (some slot) => discard <| Game.removeEquip e slot
  -- There is nothing under nil, and the log line about it formats nil.
  | removeEquip none => throw .formatNil
  | lineUp call => discard <| call.run env fuel e
  | addGold value => Game.addGold e value
  | notifyClient => Game.notifyClient env e
  | enterMatch => Game.enterMatch env (perform env fuel) fuel e
  | exitMatch => Game.exitMatch env e

/-! ### What the client is told -/

/-- A client with a right copy of the pack of the entity can take what it has been told, and has a right
copy then. -/
def Mirrored (e : ℤ) (w w' : World) : Prop :=
  ∃ calls, w'.sent = w.sent ++ calls ∧ ∀ c : Client, c e = (w.pack e).mirror →
    ∃ c', c.replay calls = some c' ∧ c' e = (w'.pack e).mirror

namespace Mirrored

variable {e : ℤ} {w w' w'' : World}

theorem of_sent (hsent : w'.sent = w.sent) (hpack : (w'.pack e).mirror = (w.pack e).mirror) : Mirrored e w w' :=
  ⟨[], by rw [hsent, List.append_nil], fun c hc => ⟨c, rfl, hc.trans hpack.symm⟩⟩

theorem refl (e : ℤ) (w : World) : Mirrored e w w := .of_sent rfl rfl

theorem trans (h : Mirrored e w w') (h' : Mirrored e w' w'') : Mirrored e w w'' := by
  obtain ⟨calls, hsent, hreplay⟩ := h
  obtain ⟨calls', hsent', hreplay'⟩ := h'
  refine ⟨calls ++ calls', by rw [hsent', hsent, List.append_assoc], fun c hc => ?_⟩
  obtain ⟨c', hc', hright⟩ := hreplay c hc
  rw [Client.replay_append, hc']
  exact hreplay' c' hright

/-- The client is told about this entity only. -/
theorem of_replay {calls : List ClientCall} (hsent : w'.sent = w.sent ++ calls) (hcalls : ∀ call ∈ calls, call.entity = e)
    (hreplay : (w.pack e).mirror.replay calls = some (w'.pack e).mirror) : Mirrored e w w' := by
  refine ⟨calls, hsent, fun c hc => ?_⟩
  rw [c.replay_of_entity hcalls, hc, hreplay]
  exact ⟨_, rfl, Function.update_self ..⟩

/-- The client is told about new entities only. -/
theorem of_announced {n : ℤ} (h : Announced n w w') (he : e < n) (hpack : w'.pack e = w.pack e) : Mirrored e w w' := by
  obtain ⟨calls, hsent, hnew, hreplay⟩ := h
  refine ⟨calls, hsent, fun c hc => ?_⟩
  obtain ⟨c', hc'⟩ := hreplay c
  refine ⟨c', hc', ?_⟩
  rw [Client.replay_of_ne (fun call hcall => (he.trans_le (hnew call hcall)).ne') hc', hc, hpack]

end Mirrored

/-! ### The invariant -/

/-- Nothing is in a table of the pack twice. -/
structure Pack.Neat (p : Pack) (e : ℤ) : Prop where
  distinct : p.Distinct
  lineUp : p.LineUp e

/-- The entities of the list have been made after an entity. -/
def World.Later (w : World) (K : List ℤ) (e : ℤ) : Prop := ∀ s ∈ K, e < s ∧ s < w.nextEntity

/-- The puppets of an entity are in the list, also those in the pack that is put aside. -/
structure Entity.Keeps (x : Entity) (K : List ℤ) (e : ℤ) : Prop where
  pack : x.pack.dependents e ⊆ K
  backup : ∀ b, x.backup = some b → b.dependents e ⊆ K

/-- A living entity with a pack in order, also while another one is put aside. `enters` says whether it may
enter a match: its pack is not one of a match then. -/
structure World.Orderly (w : World) (env : Env) (enters : Prop) (e : ℤ) : Prop where
  pos : 0 < e
  lt : e < w.nextEntity
  hp : 0 < (w.pack e).hp
  maxhp : 0 < (w.pack e).maxhp
  neat : (w.pack e).Neat e
  stocked : w.Stocked env (w.pack e)
  home : (w.entityAt e).backup = none → enters → Span.match.value < (w.pack e).span.value
  away : ∀ b, (w.entityAt e).backup = some b →
    (w.pack e).span = .match ∧ Span.match.value < b.span.value ∧ b.Neat e ∧ w.Stocked env b
  kin : ∃ K, w.Closed K ∧ w.Later K e ∧ (w.entityAt e).Keeps K e

/-- The track of calls that keep the pack in order and the copy of the client right. -/
def mirrorTrack (env : Env) (enters : Prop) (e : ℤ) : Track Fault World where
  ok w w' := w.Orderly env enters e → w'.Orderly env enters e ∧ Mirrored e w w'
  error _ w w' := w.Orderly env enters e → w'.Orderly env enters e ∧ Mirrored e w w'
  refl w h := ⟨h, .refl e w⟩
  trans h h' hw := ⟨(h' (h hw).1).1, (h hw).2.trans (h' (h hw).1).2⟩
  trans_error h h' hw := ⟨(h' (h hw).1).1, (h hw).2.trans (h' (h hw).1).2⟩

/-- Cards and items have been made or counted, and the client has been told nothing. -/
structure Stored (env : Env) (w w' : World) : Prop where
  entityAt : w'.entityAt = w.entityAt
  nextEntity : w'.nextEntity = w.nextEntity
  sent : w'.sent = w.sent
  stocked : ∀ p, w.Stocked env p → w'.Stocked env p

namespace Stored

variable {w w' : World}

theorem pack (h : Stored env w w') (e : ℤ) : w'.pack e = w.pack e := by rw [World.pack, h.entityAt, World.pack]

theorem of_grown (h : Grown w w') (hentity : w'.entityAt = w.entityAt)
    (hstill : w'.sent = w.sent ∧ w'.nextEntity = w.nextEntity) : Stored env w w' :=
  ⟨hentity, hstill.2, hstill.1, fun _ hp => hp.grown h⟩

theorem setNumber (w : World) (i number : ℤ) : Stored env w (w.setNumber i number) := by
  have hbaseid (j : ℤ) : ((w.setNumber i number).itemAt j).baseid = (w.itemAt j).baseid := by
    by_cases hj : j = i
    · rw [hj]
      simp [World.setNumber, World.setItem]
    · simp [World.setNumber, World.setItem, Function.update_of_ne hj]
  refine ⟨rfl, rfl, rfl, fun p hp => ⟨hp.cards, fun j hj => ?_, fun x hx => ?_⟩⟩
  · rw [hbaseid]
    exact hp.items j hj
  · rw [hbaseid]
    exact hp.equips x hx

theorem mirrored (h : Stored env w w') (e : ℤ) : Mirrored e w w' := .of_sent h.sent (by rw [h.pack])

end Stored

theorem stored_cardNew (baseid : ℤ) (w : World) : wp (cardNew env baseid)
    (fun c w' => Stored env w w' ∧ c = w.nextCard ∧ c < w'.nextCard ∧ env.HasCard (w'.cardAt c).baseid)
    (fun _ w' => Stored env w w' ∧ ¬ env.HasCard baseid) w := by
  have hfail : wp (cardNew env baseid) (fun _ _ => True) (fun _ _ => ¬ env.HasCard baseid) w := by
    simp only [cardNew, wp_bind, wp_get, wp_modify]
    split
    · rename_i hbase
      rintro ⟨base, hbase', -⟩
      cases hbase.symm.trans hbase'
    · rename_i base hbase
      simp only [wp_bind, wp_modify, wp_assertion, wp_pure]
      refine ⟨fun _ => trivial, fun hscript => ?_⟩
      rintro ⟨base', hbase', hscript'⟩
      cases hbase.symm.trans hbase'
      exact hscript hscript'
  refine wp_mono (wp_and (wp_and (grown_cardNew baseid w) hfail)
    (wp_and (entity_cardNew baseid w) (still_cardNew baseid w))) ?_ ?_
  · rintro c w' ⟨⟨⟨hgrown, hnew, hc, hbaseid, hcard⟩, -⟩, hentity, hstill⟩
    exact ⟨.of_grown hgrown hentity hstill, hnew, hc, hbaseid ▸ hcard⟩
  · rintro _ w' ⟨⟨hgrown, hfail⟩, hentity, hstill⟩
    exact ⟨.of_grown hgrown hentity hstill, hfail⟩

theorem stored_itemNew (baseid number : ℤ) (w : World) : wp (itemNew env baseid number)
    (fun i w' => Stored env w w' ∧ i = w.nextItem ∧ i < w'.nextItem ∧ env.HasItem (w'.itemAt i).baseid)
    (fun _ w' => Stored env w w' ∧ ¬ env.HasItem baseid) w := by
  have hfail : wp (itemNew env baseid number) (fun _ _ => True) (fun _ _ => ¬ env.HasItem baseid) w := by
    rw [itemNew]
    split
    · rename_i hbase
      rintro ⟨base, hbase', -⟩
      cases hbase.symm.trans hbase'
    · rename_i base hbase
      simp only [wp_bind, wp_get, wp_modify, wp_assertion, wp_pure]
      refine ⟨fun _ => trivial, fun hscript => ?_⟩
      rintro ⟨base', hbase', hscript'⟩
      cases hbase.symm.trans hbase'
      exact hscript hscript'
  refine wp_mono (wp_and (wp_and (grown_itemNew baseid number w) hfail)
    (wp_and (entity_itemNew baseid number w) (still_itemNew baseid number w))) ?_ ?_
  · rintro i w' ⟨⟨⟨hgrown, hnew, hi, hbaseid, hitem⟩, -⟩, hentity, hstill⟩
    exact ⟨.of_grown hgrown hentity hstill, hnew, hi, hbaseid ▸ hitem⟩
  · rintro _ w' ⟨⟨hgrown, hfail⟩, hentity, hstill⟩
    exact ⟨.of_grown hgrown hentity hstill, hfail⟩

namespace World.Stocked

variable {w : World} {p : Pack}

theorem addCard (h : w.Stocked env p) {c : ℤ} (hc : c < w.nextCard) (hcard : env.HasCard (w.cardAt c).baseid) :
    w.Stocked env { p with cards := p.cards ++ [c] } := by
  refine ⟨fun d hd => ?_, h.items, h.equips⟩
  rcases List.mem_append.1 hd with hd | hd
  · exact h.cards d hd
  · rw [List.mem_singleton.1 hd]
    exact ⟨hc, hcard⟩

theorem addItem (h : w.Stocked env p) {i : ℤ} (hi : i < w.nextItem) (hitem : env.HasItem (w.itemAt i).baseid) :
    w.Stocked env { p with items := p.items ++ [i] } := by
  refine ⟨h.cards, fun j hj => ?_, h.equips⟩
  rcases List.mem_append.1 hj with hj | hj
  · exact h.items j hj
  · rw [List.mem_singleton.1 hj]
    exact ⟨hi, hitem⟩

theorem addEquip (h : w.Stocked env p) {i : ℤ} (hi : i < w.nextItem) (hitem : env.HasItem (w.itemAt i).baseid)
    (slot : ℤ) : w.Stocked env { p with equips := p.equips ++ [(slot, i)] } := by
  refine ⟨h.cards, h.items, fun x hx => ?_⟩
  rcases List.mem_append.1 hx with hx | hx
  · exact h.equips x hx
  · rw [List.mem_singleton.1 hx]
    exact ⟨hi, hitem⟩

/-- Less can be made again as well. -/
theorem mono (h : w.Stocked env p) {p' : Pack} (hcards : p'.cards ⊆ p.cards) (hitems : p'.items ⊆ p.items)
    (hequips : p'.equips ⊆ p.equips) : w.Stocked env p' :=
  ⟨fun c hc => h.cards c (hcards hc), fun i hi => h.items i (hitems hi), fun x hx => h.equips x (hequips hx)⟩

end World.Stocked

namespace World.Orderly

variable {w w' : World} {enters : Prop} {e : ℤ}

/-- The entity stays, and so does what its packs hold. -/
theorem congr (h : w.Orderly env enters e) (hentity : w'.entityAt e = w.entityAt e)
    (hnext : w.nextEntity ≤ w'.nextEntity) (hstocked : ∀ p, w.Stocked env p → w'.Stocked env p)
    (hkin : ∃ K, w'.Closed K ∧ w'.Later K e ∧ (w.entityAt e).Keeps K e) : w'.Orderly env enters e := by
  have hpack : w'.pack e = w.pack e := by rw [World.pack, hentity, World.pack]
  refine ⟨h.pos, h.lt.trans_le hnext, ?_, ?_, ?_, ?_, ?_, ?_, ?_⟩
  · rw [hpack]
    exact h.hp
  · rw [hpack]
    exact h.maxhp
  · rw [hpack]
    exact h.neat
  · rw [hpack]
    exact hstocked _ h.stocked
  · rw [hentity, hpack]
    exact h.home
  · rw [hentity, hpack]
    intro b hb
    obtain ⟨hspan, hspan', hneat, hb⟩ := h.away b hb
    exact ⟨hspan, hspan', hneat, hstocked b hb⟩
  · rw [hentity]
    exact hkin

/-- All entities stay. -/
theorem heap (h : w.Orderly env enters e) (hentity : w'.entityAt = w.entityAt) (hnext : w'.nextEntity = w.nextEntity)
    (hstocked : ∀ p, w.Stocked env p → w'.Stocked env p) : w'.Orderly env enters e := by
  obtain ⟨K, hclosed, hlater, hkeeps⟩ := h.kin
  refine h.congr (by rw [hentity]) hnext.ge hstocked ⟨K, fun s hs => ?_, fun s hs => ?_, hkeeps⟩
  · rw [World.pack, hentity]
    exact hclosed s hs
  · rw [hnext]
    exact hlater s hs

/-- New entities are made. -/
theorem grown (h : w.Orderly env enters e) (hgrown : Grown w w') : w'.Orderly env enters e := by
  obtain ⟨K, hclosed, hlater, hkeeps⟩ := h.kin
  refine h.congr (hgrown.entityAt e h.lt) hgrown.nextEntity (fun _ hp => hp.grown hgrown)
    ⟨K, fun s hs => ?_, fun s hs => ?_, hkeeps⟩
  · rw [hgrown.pack (hlater s hs).2]
    exact hclosed s hs
  · exact ⟨(hlater s hs).1, (hlater s hs).2.trans_le hgrown.nextEntity⟩

/-- Entities that have been made later are destroyed. -/
theorem spared (h : w.Orderly env enters e) {K : List ℤ} (hlater : w.Later K e) (hkeeps : (w.entityAt e).Keeps K e)
    (hspared : Spared K w w') (hclosed : w'.Closed K) : w'.Orderly env enters e ∧ Mirrored e w w' := by
  have hentity : w'.entityAt e = w.entityAt e := hspared.entityAt e fun he => lt_irrefl e (hlater e he).1
  have hstocked (p : Pack) (hp : w.Stocked env p) : w'.Stocked env p := by
    have hcard : w'.cardAt = w.cardAt := (congrArg World.cardAt hspared.rest :)
    have hitem : w'.itemAt = w.itemAt := (congrArg World.itemAt hspared.rest :)
    have hnextCard : w'.nextCard = w.nextCard := (congrArg World.nextCard hspared.rest :)
    have hnextItem : w'.nextItem = w.nextItem := (congrArg World.nextItem hspared.rest :)
    refine ⟨?_, ?_, ?_⟩
    · rw [hcard, hnextCard]
      exact hp.cards
    · rw [hitem, hnextItem]
      exact hp.items
    · rw [hitem, hnextItem]
      exact hp.equips
  refine ⟨h.congr hentity hspared.nextEntity.ge hstocked ⟨K, hclosed, fun s hs => ?_, hkeeps⟩, ?_⟩
  · rw [hspared.nextEntity]
    exact hlater s hs
  · exact .of_sent (congrArg World.sent hspared.rest :) (by rw [World.pack, hentity, World.pack])

theorem stored (h : w.Orderly env enters e) (hs : Stored env w w') : w'.Orderly env enters e :=
  h.heap hs.entityAt hs.nextEntity hs.stocked

theorem tell (h : w.Orderly env enters e) (calls : List ClientCall) : (w.tell calls).Orderly env enters e :=
  h.heap rfl rfl fun _ hp => ⟨hp.cards, hp.items, hp.equips⟩

/-- A list of others is closed whatever pack the entity gets. -/
theorem closed_setPack {K : List ℤ} (hclosed : w.Closed K) (he : e ∉ K) (p : Pack) (calls : List ClientCall) :
    ((w.setPack e p).tell calls).Closed K := by
  intro s hs
  have hne : s ≠ e := by
    rintro rfl
    exact he hs
  rw [World.pack_tell, World.pack_setPack_of_ne w hne]
  exact hclosed s hs

/-- The entity gets another pack, with puppets out of a list. -/
theorem setPack_of_closed (h : w.Orderly env enters e) {p : Pack} (hneat : p.Neat e) (hstocked : w.Stocked env p)
    (hspan : p.span = (w.pack e).span) (hhp : p.hp = (w.pack e).hp) (hmaxhp : p.maxhp = (w.pack e).maxhp)
    {K : List ℤ} (hclosed : w.Closed K) (hlater : w.Later K e) (hown : p.dependents e ⊆ K)
    (hback : ∀ b, (w.entityAt e).backup = some b → b.dependents e ⊆ K) (calls : List ClientCall) :
    ((w.setPack e p).tell calls).Orderly env enters e := by
  have hpack : ((w.setPack e p).tell calls).pack e = p := by rw [World.pack_tell, World.pack_setPack_self]
  have hbackup : (((w.setPack e p).tell calls).entityAt e).backup = (w.entityAt e).backup := by
    show ((w.setPack e p).entityAt e).backup = _
    rw [World.backup_setPack]
  refine ⟨h.pos, h.lt, ?_, ?_, ?_, ?_, ?_, ?_, K, ?_, hlater, ?_, ?_⟩
  · rw [hpack, hhp]
    exact h.hp
  · rw [hpack, hmaxhp]
    exact h.maxhp
  · rw [hpack]
    exact hneat
  · rw [hpack]
    exact ⟨hstocked.cards, hstocked.items, hstocked.equips⟩
  · rw [hbackup, hpack, hspan]
    exact h.home
  · rw [hbackup, hpack, hspan]
    intro b hb
    obtain ⟨hspanb, hspanb', hneatb, hstockedb⟩ := h.away b hb
    exact ⟨hspanb, hspanb', hneatb, hstockedb.cards, hstockedb.items, hstockedb.equips⟩
  · exact closed_setPack hclosed (fun he => lt_irrefl e (hlater e he).1) p calls
  · show (((w.setPack e p).tell calls).pack e).dependents e ⊆ K
    rw [hpack]
    exact hown
  · rw [hbackup]
    exact hback

/-- The entity gets another pack, with puppets that it had before. -/
theorem setPack (h : w.Orderly env enters e) {p : Pack} (hneat : p.Neat e) (hstocked : w.Stocked env p)
    (hspan : p.span = (w.pack e).span) (hhp : p.hp = (w.pack e).hp) (hmaxhp : p.maxhp = (w.pack e).maxhp)
    (hdependents : p.dependents e ⊆ (w.pack e).dependents e) (calls : List ClientCall) :
    ((w.setPack e p).tell calls).Orderly env enters e := by
  obtain ⟨K, hclosed, hlater, hkeeps⟩ := h.kin
  exact h.setPack_of_closed hneat hstocked hspan hhp hmaxhp hclosed hlater
    (List.Subset.trans hdependents hkeeps.pack) hkeeps.backup calls

theorem zero_notMem (h : w.Orderly env enters e) : 0 ∉ (w.pack e).lineUp := by
  obtain ⟨K, -, hlater, hkeeps⟩ := h.kin
  exact Pack.zero_notMem_lineUp h.pos fun t ht => (hlater t (hkeeps.pack ht)).1

end World.Orderly

/-! ### Cards, items, equipment and gold -/

section Operations

variable {w : World} {enters : Prop} {e : ℤ}

/-- The entity gets another pack, and the client is told what has changed. -/
theorem mirrored_setPack (h : w.Orderly env enters e) {p : Pack} (hneat : p.Neat e) (hstocked : w.Stocked env p)
    (hspan : p.span = (w.pack e).span) (hhp : p.hp = (w.pack e).hp) (hmaxhp : p.maxhp = (w.pack e).maxhp)
    (hdependents : p.dependents e ⊆ (w.pack e).dependents e) {calls : List ClientCall}
    (hcalls : ∀ call ∈ calls, call.entity = e) (hreplay : (w.pack e).mirror.replay calls = some p.mirror) :
    ((w.setPack e p).tell calls).Orderly env enters e ∧ Mirrored e w ((w.setPack e p).tell calls) := by
  refine ⟨h.setPack hneat hstocked hspan hhp hmaxhp hdependents calls, .of_replay rfl hcalls ?_⟩
  rw [World.pack_tell, World.pack_setPack_self]
  exact hreplay

/-- Something is stored first. -/
theorem Stored.then {w' w'' : World} (h : Stored env w w') (h' : (mirrorTrack env enters e).ok w' w'') :
    (mirrorTrack env enters e).ok w w'' := fun hw =>
  ⟨(h' (hw.stored h)).1, (h.mirrored e).trans (h' (hw.stored h)).2⟩

theorem mirrored_addCard (baseid : ℤ) : (mirrorTrack env enters e).Follows (addCard env e baseid) := by
  intro w
  rw [addCard, wp_bind]
  refine wp_mono (stored_cardNew baseid w) ?_ fun _ w' hstored h => ⟨h.stored hstored.1, hstored.1.mirrored e⟩
  rintro c w' ⟨hstored, -, hc, hcard⟩
  simp only [wp_bind, wp_getPack, wp_assertion, wp_modifyPack, wp_notify_tell, wp_pure]
  refine ⟨fun hnew => hstored.then fun h => ?_, fun _ h => ⟨h.stored hstored, hstored.mirrored e⟩⟩
  have hneat : Pack.Neat { w'.pack e with cards := (w'.pack e).cards ++ [c] } e :=
    ⟨h.neat.distinct.addCard hnew, h.neat.lineUp.congr rfl rfl⟩
  refine mirrored_setPack h hneat (h.stocked.addCard hc hcard) rfl rfl rfl (List.Subset.refl _) (by simp [ClientCall.entity]) ?_
  rw [ClientPack.replay_cons, mirror_addCard hnew]
  rfl

theorem mirrored_removeCard (c : ℤ) : (mirrorTrack env enters e).Follows (removeCard e c) := by
  intro w
  refine wp_removeCard.2 ⟨fun hc h => ?_, fun _ h => ⟨h, .refl e w⟩⟩
  have hneat : ((w.pack e).dropCard c).Neat e :=
    ⟨⟨h.neat.distinct.cards.erase c, h.neat.distinct.items, h.neat.distinct.equips⟩, h.neat.lineUp.congr rfl rfl⟩
  have hstocked : w.Stocked env ((w.pack e).dropCard c) :=
    h.stocked.mono List.erase_subset (List.Subset.refl _) (List.Subset.refl _)
  refine mirrored_setPack h hneat hstocked rfl rfl rfl (List.Subset.refl _) (by simp [ClientCall.entity]) ?_
  rw [ClientPack.replay_cons, mirror_dropCard h.neat.distinct.cards hc]
  rfl

/-- The client does not keep the numbers of items. -/
theorem mirrored_setItemNumber (w : World) (i number : ℤ) :
    (mirrorTrack env enters e).ok w (w.tell [.bagSetItemNumber e i number]) := fun h =>
  ⟨h.tell _, .of_replay rfl (by simp [ClientCall.entity]) rfl⟩

theorem mirrored_addItemLoop (baseid : ℤ) (slots : ℕ) (number : ℤ) :
    (mirrorTrack env enters e).Follows (addItemLoop env e baseid slots number) := by
  induction slots generalizing number with
  | zero => exact follows_pure _
  | succ slots ih =>
    intro w
    rw [addItemLoop, wp_ite]
    refine ⟨fun _ => ?_, fun _ => (mirrorTrack env enters e).refl w⟩
    rw [wp_bind]
    refine wp_mono (stored_itemNew baseid number w) ?_ fun _ w' hstored h => ⟨h.stored hstored.1, hstored.1.mirrored e⟩
    rintro i w' ⟨hstored, -, hi, hitem⟩
    simp only [wp_bind, wp_getPack, wp_assertion, wp_modifyPack, wp_notify_tell, wp_get]
    refine ⟨fun hnew => ?_, fun _ h => ⟨h.stored hstored, hstored.mirrored e⟩⟩
    have hok : (mirrorTrack env enters e).ok w
        ((w'.setPack e { w'.pack e with items := (w'.pack e).items ++ [i] }).tell [.bagAddItem e i]) := by
      refine hstored.then fun h => ?_
      have hneat : Pack.Neat { w'.pack e with items := (w'.pack e).items ++ [i] } e :=
        ⟨h.neat.distinct.addItem hnew, h.neat.lineUp.congr rfl rfl⟩
      refine mirrored_setPack h hneat (h.stocked.addItem hi hitem) rfl rfl rfl (List.Subset.refl _)
        (by simp [ClientCall.entity]) ?_
      rw [ClientPack.replay_cons, mirror_addItem hnew]
      rfl
    exact wp_trans hok (Follows.ite (fun _ => ih _) (fun _ => follows_pure _) _)

theorem mirrored_addItem (baseid number : ℤ) : (mirrorTrack env enters e).Follows (addItem env e baseid number) := by
  intro w
  rw [addItem, wp_bind, wp_get]
  split
  · exact mirrored_addItemLoop _ _ _ w
  · rename_i i hfind
    rw [wp_bind]
    show wp _ _ _ (w.setNumber i _)
    rw [wp_bind, wp_get, wp_bind, wp_notify_tell]
    exact wp_trans ((Stored.setNumber w i _).then (mirrored_setItemNumber _ _ _)) (mirrored_addItemLoop _ _ _ _)

/-- The pack without an item is in order. -/
theorem World.Orderly.dropItem (h : w.Orderly env enters e) (i : ℤ) :
    ((w.pack e).dropItem i).Neat e ∧ w.Stocked env ((w.pack e).dropItem i) :=
  ⟨⟨⟨h.neat.distinct.cards, h.neat.distinct.items.erase i, h.neat.distinct.equips⟩, h.neat.lineUp.congr rfl rfl⟩,
    h.stocked.mono (List.Subset.refl _) List.erase_subset (List.Subset.refl _)⟩

theorem mirrored_removeItem (i number : ℤ) : (mirrorTrack env enters e).Follows (removeItem e i number) := by
  intro w
  by_cases hi : i ∈ (w.pack e).items
  · refine wp_removeItem hi (fun _ => ?_) fun _ => ?_
    · exact (Stored.setNumber w i _).then (mirrored_setItemNumber _ _ _)
    · refine (Stored.setNumber w i ((w.itemAt i).number - number)).then fun h => ?_
      obtain ⟨hneat, hstocked⟩ := h.dropItem i
      refine mirrored_setPack h hneat hstocked rfl rfl rfl (List.Subset.refl _) (by simp [ClientCall.entity]) ?_
      rw [ClientPack.replay_cons, mirror_dropItem h.neat.distinct.items hi]
      rfl
  · rw [removeItem, wp_bind, wp_getPack, wp_bind, wp_assertion]
    exact ⟨fun hmem => absurd hmem hi, fun _ h => ⟨h, .refl e w⟩⟩

/-- The pack with a piece of equipment put back is in order. -/
theorem World.Orderly.takeOff (h : w.Orderly env enters e) {slot i : ℤ} (hat : (w.pack e).equips.lookup slot = some i)
    (hi : i ∉ (w.pack e).items) : ((w.pack e).takeOff slot i).Neat e ∧ w.Stocked env ((w.pack e).takeOff slot i) := by
  have hmem := h.stocked.equips _ (Assoc.mem_of_lookup hat)
  refine ⟨⟨⟨h.neat.distinct.cards, nodup_concat h.neat.distinct.items hi,
    Assoc.nodup_filter h.neat.distinct.equips _⟩, h.neat.lineUp.congr rfl rfl⟩, ?_⟩
  exact (h.stocked.addItem hmem.1 hmem.2).mono (List.Subset.refl _) (List.Subset.refl _) List.filter_sublist.subset

theorem mirrored_removeEquip (slot : ℤ) : (mirrorTrack env enters e).Follows (removeEquip e slot) := by
  intro w
  refine wp_removeEquip (fun _ => (mirrorTrack env enters e).refl w) (fun i hat hi h => ?_) fun _ _ _ h => ⟨h, .refl e w⟩
  obtain ⟨hneat, hstocked⟩ := h.takeOff hat hi
  exact mirrored_setPack h hneat hstocked rfl rfl rfl (List.Subset.refl _) (by simp [ClientCall.entity])
    (mirror_takeOff (by simp [hat]) hi)

/-- A pack with an item put on at a free slot is in order. -/
theorem Pack.Neat.putOn {p : Pack} (hneat : p.Neat e) (hstocked : w.Stocked env p) {slot i : ℤ}
    (hfree : p.equips.lookup slot = none) (hi : i ∈ p.items) : (p.putOn slot i).Neat e ∧ w.Stocked env (p.putOn slot i) := by
  refine ⟨⟨⟨hneat.distinct.cards, hneat.distinct.items.erase i,
    Assoc.nodup_concat hneat.distinct.equips (Assoc.lookup_eq_none.1 hfree)⟩, hneat.lineUp.congr rfl rfl⟩, ?_⟩
  have hmem := hstocked.items i hi
  exact (hstocked.addEquip hmem.1 hmem.2 slot).mono (List.Subset.refl _) List.erase_subset (List.Subset.refl _)

theorem mirrored_addEquip (i slot : ℤ) : (mirrorTrack env enters e).Follows (addEquip e i slot) := by
  intro w
  by_cases hi : i ∈ (w.pack e).items ∧ (w.itemAt i).base.category = .equipable
  · refine wp_addEquip hi.1 hi.2 (fun hfree h => ?_) (fun j hat hj h => ?_) fun _ _ _ h => ⟨h, .refl e w⟩
    · obtain ⟨hneat, hstocked⟩ := h.neat.putOn h.stocked hfree hi.1
      exact mirrored_setPack h hneat hstocked rfl rfl rfl (List.Subset.refl _) (by simp [ClientCall.entity])
        (mirror_putOn hfree h.neat.distinct.items hi.1)
    · obtain ⟨hneat, hstocked⟩ := h.takeOff hat hj
      have hmem : i ∈ ((w.pack e).takeOff slot j).items := List.mem_append_left _ hi.1
      have hfree := (w.pack e).lookup_takeOff slot j
      obtain ⟨hneat', hstocked'⟩ := hneat.putOn hstocked hfree hmem
      refine mirrored_setPack h hneat' hstocked' rfl rfl rfl (List.Subset.refl _) (by simp [ClientCall.entity]) ?_
      -- What is taken off is told before what is put on.
      show (w.pack e).mirror.replay ([.bagAddItem e j, .equipBarRemove e slot] ++ [.bagRemoveItem e i, .equipBarAdd e slot i]) = _
      rw [ClientPack.replay_append, mirror_takeOff (by simp [hat]) hj, Option.bind_some,
        mirror_putOn hfree hneat.distinct.items hmem]
  · rw [addEquip, wp_bind, wp_get, wp_bind, wp_assertion]
    exact ⟨fun hmem => absurd hmem hi, fun _ h => ⟨h, .refl e w⟩⟩

theorem mirrored_addGold (value : ℤ) : (mirrorTrack env enters e).Follows (addGold e value) := by
  intro w
  simp only [addGold, wp_bind, wp_getPack, wp_assertion, wp_modifyPack, wp_notify_tell, World.pack_setPack_self]
  refine ⟨fun _ h => ?_, fun _ h => ⟨h, .refl e w⟩⟩
  have hneat : Pack.Neat { w.pack e with gold := max 0 ((w.pack e).gold + value) } e :=
    ⟨⟨h.neat.distinct.cards, h.neat.distinct.items, h.neat.distinct.equips⟩, h.neat.lineUp.congr rfl rfl⟩
  exact mirrored_setPack h hneat ⟨h.stocked.cards, h.stocked.items, h.stocked.equips⟩ rfl rfl rfl (List.Subset.refl _)
    (by simp [ClientCall.entity]) rfl

/-- The pack is told as a whole. -/
theorem World.Orderly.replay_notifyCalls (h : w.Orderly env enters e) (c : ClientPack) :
    c.replay ((w.pack e).notifyCalls env e) = some (w.pack e).mirror :=
  Game.replay_notifyCalls h.neat.distinct h.neat.lineUp.nodup h.neat.lineUp.slots.nodup h.zero_notMem c

theorem mirrored_notifyClient : (mirrorTrack env enters e).Follows (notifyClient env e) := fun _ =>
  wp_notifyClient.2 fun h => ⟨h.tell _, .of_replay rfl (fun _ => Pack.entity_notifyCalls) (h.replay_notifyCalls _)⟩

/-! ### Puppets -/

/-- All calls of an arrangement are about the entity. -/
theorem Arranged.entity {p p' : Pack} {calls : List ClientCall} (h : Arranged e p p' calls) {call : ClientCall}
    (hcall : call ∈ calls) : call.entity = e := by
  cases h <;> simp only [List.mem_cons, List.not_mem_nil, or_false] at hcall
  case back | field | move => rcases hcall with rfl | rfl <;> rfl
  case relieve | swap => rcases hcall with rfl | rfl | rfl | rfl <;> rfl

/-- An arrangement moves puppets and nothing else. -/
theorem Arranged.rest {p p' : Pack} {calls : List ClientCall} (h : Arranged e p p' calls) :
    ({ p' with puppets := [], placeholders := [] } : Pack) = { p with puppets := [], placeholders := [] } := by
  cases h <;> simp only [Pack.withPuppets, Pack.clearPlaceholder, Pack.setPlaceholder]

theorem mirrored_arrangePlaceholder (target placeholder : Option ℤ) :
    (mirrorTrack env enters e).Follows (arrangePlaceholder env e target placeholder) := by
  intro w
  refine wp_imp fun h => wp_mono (wp_arrangePlaceholder h.neat.lineUp target placeholder) ?_ ?_
  · intro r w' hr
    cases r with
    | false =>
      obtain rfl : w' = w := hr
      exact ⟨h, .refl e w'⟩
    | true =>
      obtain ⟨p, calls, harranged, rfl⟩ := hr
      obtain ⟨hperm, hlineUp⟩ := harranged.lineUp h.neat.lineUp
      have hrest {α : Type} (f : Pack → α) (hf : ∀ p : Pack, f { p with puppets := [], placeholders := [] } = f p) :
          f p = f (w.pack e) := by rw [← hf p, harranged.rest, hf]
      have hcards := hrest Pack.cards fun _ => rfl
      have hitems := hrest Pack.items fun _ => rfl
      have hequips := hrest Pack.equips fun _ => rfl
      have hneat : p.Neat e := ⟨⟨hcards ▸ h.neat.distinct.cards, hitems ▸ h.neat.distinct.items,
        hequips ▸ h.neat.distinct.equips⟩, hlineUp⟩
      have hstocked : w.Stocked env p := ⟨hcards ▸ h.stocked.cards, hitems ▸ h.stocked.items, hequips ▸ h.stocked.equips⟩
      exact mirrored_setPack h hneat hstocked (hrest Pack.span fun _ => rfl) (hrest Pack.hp fun _ => rfl)
        (hrest Pack.maxhp fun _ => rfl) (hperm.filter _).subset (fun _ => harranged.entity)
        (harranged.mirror h.neat.lineUp h.zero_notMem)
  · rintro _ w' rfl
    exact ⟨h, .refl e w'⟩

theorem World.Closed.append {K K' : List ℤ} (h : w.Closed K) (h' : w.Closed K') : w.Closed (K ++ K') := by
  intro s hs t ht
  rcases List.mem_append.1 hs with hs | hs
  · exact List.mem_append_left _ (h s hs t ht)
  · exact List.mem_append_right _ (h' s hs t ht)

theorem mirrored_addPuppet (fuel : ℕ) (baseid : ℤ) : (mirrorTrack env enters e).Follows (addPuppet env fuel e baseid) := by
  intro w
  refine wp_imp fun h => ?_
  rw [addPuppet, wp_bind, wp_get, wp_bind]
  have hpos : 0 < w.nextEntity := h.pos.trans h.lt
  refine wp_mono (wp_and (wp_entityNew _ _ fuel (some e) baseid w)
    (presented_entityNew _ _ fuel (some e) baseid hpos)) ?_ ?_
  · rintro t w' ⟨⟨ht, hgrown, hmade⟩, hpresented⟩
    have h' := h.grown hgrown
    have hpack : w'.pack e = w.pack e := hgrown.pack h.lt
    have htold : Mirrored e w w' := .of_announced hpresented.announced h.lt hpack
    rw [wp_bind, wp_getPack, wp_bind, wp_assertion]
    refine ⟨fun hnew => ?_, fun _ => ⟨h', htold⟩⟩
    rw [wp_bind, wp_modifyPack, wp_bind, wp_notify_tell, wp_pure]
    show World.Orderly ((w'.setPack e ((w'.pack e).withPuppets ((w'.pack e).puppets ++ [t]))).tell _) env enters e ∧ _
    -- The puppet and those that depend on it are out of reach of the others.
    obtain ⟨K, hclosed, hlater, hkeeps⟩ := h'.kin
    have hlt : e < t := ht ▸ h.lt
    have hout : t ∉ (w'.pack e).lineUp := by
      obtain ⟨K, -, hlater, hkeeps⟩ := h.kin
      rw [hpack]
      intro hmem
      exact absurd (hlater t (hkeeps.pack (List.mem_filter.2 ⟨hmem, decide_eq_true hlt.ne'⟩))).2 (by omega)
    have hperm : ((w'.pack e).withPuppets ((w'.pack e).puppets ++ [t])).lineUp.Perm (t :: (w'.pack e).lineUp) := by
      rw [Pack.lineUp, Pack.withPuppets, List.append_assoc]
      exact List.perm_middle
    have hneat : ((w'.pack e).withPuppets ((w'.pack e).puppets ++ [t])).Neat e :=
      ⟨⟨h'.neat.distinct.cards, h'.neat.distinct.items, h'.neat.distinct.equips⟩,
        h'.neat.lineUp.insert hperm hout h'.neat.lineUp.slots (List.Sublist.refl _)⟩
    refine ⟨h'.setPack_of_closed hneat ⟨h'.stocked.cards, h'.stocked.items, h'.stocked.equips⟩ rfl rfl rfl
      (hclosed.append hmade.sound.closed) (fun s hs => ?_) (fun s hs => ?_)
      (fun b hb => List.Subset.trans (hkeeps.backup b hb) (List.subset_append_left ..)) _, htold.trans (.of_replay rfl ?_ ?_)⟩
    · rcases List.mem_append.1 hs with hs | hs
      · exact hlater s hs
      · have hkin := hmade.sound.of_mem_kin hs
        exact ⟨hlt.trans_le hkin.1, hkin.2.1⟩
    · obtain ⟨hs, hne⟩ := List.mem_filter.1 hs
      rcases List.mem_cons.1 (hperm.mem_iff.1 hs) with rfl | hs
      · exact List.mem_append_right _ hmade.sound.mem_kin
      · exact List.mem_append_left _ (hkeeps.pack (List.mem_filter.2 ⟨hs, hne⟩))
    · simp [ClientCall.entity]
    · rw [World.pack_tell, World.pack_setPack_self, ClientPack.replay_cons, mirror_addPuppet hnew]
      rfl
  · rintro _ w' ⟨hgrown, hannounced⟩
    exact ⟨h.grown hgrown, .of_announced hannounced h.lt (hgrown.pack h.lt)⟩

theorem mirrored_removePuppet (fuel : ℕ) (target : ℤ) :
    (mirrorTrack env enters e).Follows (removePuppet env fuel e target) := by
  intro w
  refine wp_imp fun h => ?_
  rw [removePuppet, wp_bind, wp_getPack, wp_ite]
  refine ⟨fun _ => ⟨h, .refl e w⟩, fun hin => ?_⟩
  have htarget : target ∈ (w.pack e).puppets := not_not.1 hin
  obtain ⟨hlineUp, hperm⟩ := h.neat.lineUp.erase htarget
  have hsub := List.Subset.trans (List.subset_cons_self target _) hperm.subset
  have hneat : ((w.pack e).withPuppets ((w.pack e).puppets.erase target)).Neat e :=
    ⟨⟨h.neat.distinct.cards, h.neat.distinct.items, h.neat.distinct.equips⟩, hlineUp⟩
  obtain ⟨u, hu⟩ : ∃ u, u = (w.setPack e ((w.pack e).withPuppets ((w.pack e).puppets.erase target))).tell
      [.bagRemovePuppet e target] := ⟨_, rfl⟩
  have hdone : u.Orderly env enters e ∧ Mirrored e w u := by
    rw [hu]
    refine mirrored_setPack h hneat ⟨h.stocked.cards, h.stocked.items, h.stocked.equips⟩ rfl rfl rfl hsub
      (by simp [ClientCall.entity]) ?_
    rw [ClientPack.replay_cons, mirror_removePuppet (List.nodup_append.1 h.neat.lineUp.nodup).1 htarget]
    rfl
  -- The destructor stays within what depends on the puppets of the entity.
  obtain ⟨K, hclosed, hlater, hkeeps⟩ := h.kin
  have hclosed' : u.Closed K := by
    rw [hu]
    exact World.Orderly.closed_setPack hclosed (fun he => lt_irrefl e (hlater e he).1) _ _
  have hlater' : u.Later K e := by
    rw [hu]
    exact hlater
  have hkeeps' : (u.entityAt e).Keeps K e := by
    refine ⟨?_, ?_⟩
    · show (u.pack e).dependents e ⊆ K
      rw [hu, World.pack_tell, World.pack_setPack_self]
      exact List.Subset.trans hsub hkeeps.pack
    · have hbackup : (u.entityAt e).backup = (w.entityAt e).backup := by
        rw [hu]
        show ((w.setPack e _).entityAt e).backup = _
        rw [World.backup_setPack]
      rw [hbackup]
      exact hkeeps.backup
  rw [wp_bind, wp_modifyPack, wp_bind, wp_notify_tell, wp_bind]
  show wp _ _ _ ((w.setPack e ((w.pack e).withPuppets ((w.pack e).puppets.erase target))).tell [.bagRemovePuppet e target])
  rw [← hu]
  have hend {v : World} (hv : Spared K u v ∧ v.Closed K) : v.Orderly env enters e ∧ Mirrored e w v := by
    obtain ⟨hv', htold⟩ := hdone.1.spared hlater' hkeeps' hv.1 hv.2
    exact ⟨hv', hdone.2.trans htold⟩
  exact wp_mono (spared_entityDestroy fuel (hkeeps.pack (h.neat.lineUp.mem_dependents htarget)) hclosed')
    (fun _ _ => hend) fun _ _ => hend

theorem mirrored_lineUp (fuel : ℕ) (call : LineUpCall) : (mirrorTrack env enters e).Follows (call.run env fuel e) := by
  cases call with
  | addPuppet baseid => exact (mirrored_addPuppet fuel baseid).bind fun _ => follows_pure _
  | removePuppet target =>
    cases target with
    | none => exact follows_throw (mirrorTrack env enters e).refl
    | some target => exact mirrored_removePuppet fuel target
  | arrangePlaceholder target placeholder => exact mirrored_arrangePlaceholder target placeholder

end Operations

/-! ### Entering and leaving a match -/

section Match

variable {w u : World} {enters : Prop} {e : ℤ}

/-- The world in which an entity has got the pack back that it has put aside. -/
def World.takeBack (w : World) (e : ℤ) (b : Pack) : World :=
  w.setEntity e { w.entityAt e with pack := b.receive (w.pack e), backup := none }

theorem Pack.dependents_receive (p src : Pack) (e : ℤ) : (p.receive src).dependents e = p.dependents e := rfl

theorem World.Orderly.takeBack (h : w.Orderly env enters e) {b : Pack} (hb : (w.entityAt e).backup = some b) :
    (w.takeBack e b).Orderly env enters e := by
  obtain ⟨-, hspan, hneat, hstocked⟩ := h.away b hb
  obtain ⟨K, hclosed, hlater, hkeeps⟩ := h.kin
  have hself : (w.takeBack e b).entityAt e = { w.entityAt e with pack := b.receive (w.pack e), backup := none } :=
    World.entityAt_setEntity_self ..
  have hpack : (w.takeBack e b).pack e = b.receive (w.pack e) := by rw [World.pack, hself]
  have hbackup : ((w.takeBack e b).entityAt e).backup = none := by rw [hself]
  have hhp := h.hp
  have hmaxhp := h.maxhp
  refine ⟨h.pos, h.lt, ?_, ?_, ?_, ?_, ?_, ?_, K, ?_, hlater, ?_⟩
  · rw [hpack]
    simp only [Pack.receive]
    omega
  · rw [hpack]
    exact hmaxhp
  · rw [hpack]
    exact ⟨⟨hneat.distinct.cards, hneat.distinct.items, hneat.distinct.equips⟩, hneat.lineUp.congr rfl rfl⟩
  · rw [hpack]
    exact ⟨hstocked.cards, hstocked.items, hstocked.equips⟩
  · rw [hpack]
    exact fun _ _ => hspan
  · rw [hbackup]
    intro b' hb'
    cases hb'
  · intro s hs
    have hne : s ≠ e := by
      rintro rfl
      exact lt_irrefl _ (hlater _ hs).1
    rw [World.pack, World.takeBack, World.entityAt_setEntity_of_ne w hne]
    exact hclosed s hs
  · refine ⟨?_, ?_⟩
    · show ((w.takeBack e b).pack e).dependents e ⊆ K
      rw [hpack, Pack.dependents_receive]
      exact hkeeps.backup b hb
    · intro b' hb'
      rw [hbackup] at hb'
      cases hb'

/-- What `exit_match` does with the pack of a match. -/
theorem wp_exitMatch {b : Pack} (hb : (w.entityAt e).backup = some b) (hspan : (w.pack e).span = .match)
    (hspan' : Span.match.value < b.span.value) {Q : Unit → World → Prop} {E : Fault → World → Prop} :
    wp (exitMatch env e) Q E w ↔
      Q () ((w.takeBack e b).tell (((w.takeBack e b).pack e).notifyCalls env e)) := by
  have hpack : (w.entityAt e).pack.span = .match := hspan
  have hback : ¬ b.span.value < (w.entityAt e).pack.span.value := by
    rw [hpack]
    exact hspan'.le.not_gt
  have hne : (w.entityAt e).pack.span ≠ b.span := by
    intro hsame
    rw [← hsame, hpack] at hspan'
    exact absurd hspan' (lt_irrefl _)
  have hstate : (w.setEntity e { w.entityAt e with
        backup := (w.entityAt e).backup.map fun p => p.receive (w.entityAt e).pack }).setEntity e
      { w.entityAt e with
        pack := ((w.entityAt e).backup.map fun p => p.receive (w.entityAt e).pack).getD (w.entityAt e).pack
        backup := none } = w.takeBack e b := by
    simp [World.setEntity, World.takeBack, World.pack, hb]
  rw [exitMatch, wp_bind, wp_get]
  dsimp only
  rw [hb]
  dsimp only
  rw [wp_bind, delivery, wp_bind, wp_assertion, and_iff_left fun h => absurd hne h]
  rw [if_neg hback, wp_modifyEntity, wp_bind, wp_modifyEntity, World.entityAt_setEntity_self, wp_notifyClient]
  rw [hb] at hstate ⊢
  rw [hstate]
  exact ⟨fun h => h hne, fun h _ => h⟩

/-- Leaving a match, the entity gets the pack back that it has put aside, with the hp that it has left. -/
theorem mirrored_exitMatch : (mirrorTrack env enters e).Follows (exitMatch env e) := by
  intro w
  refine wp_imp fun h => ?_
  cases hb : (w.entityAt e).backup with
  | none =>
    rw [exitMatch, wp_bind, wp_get]
    dsimp only
    rw [hb]
    exact ⟨h, .refl e w⟩
  | some b =>
    obtain ⟨hspan, hspan', -⟩ := h.away b hb
    rw [wp_exitMatch hb hspan hspan']
    have h' := h.takeBack hb
    exact ⟨h'.tell _, .of_replay rfl (fun _ => Pack.entity_notifyCalls) (h'.replay_notifyCalls _)⟩

/-- The part of a pack that a delivery copies first. -/
def Pack.shell (p : Pack) : Pack :=
  { p with cards := [], items := [], equips := [], puppets := [], placeholders := [] }

/-- The pack of the match is being loaded from the one that an entity has put aside in the world `w`. -/
structure Loading (env : Env) (e : ℤ) (w u : World) : Prop where
  others : ∀ i, i ≠ e → u.entityAt i = w.entityAt i
  backup : (u.entityAt e).backup = some (w.pack e)
  nextEntity : u.nextEntity = w.nextEntity
  sent : u.sent = w.sent
  kept : ∀ p, w.Stocked env p → u.Stocked env p
  stocked : u.Stocked env (u.pack e)
  distinct : (u.pack e).Distinct
  shell : (u.pack e).shell = ({ span := .match } : Pack).copyNumbers (w.pack e)

namespace Loading

variable {u' : World} {p : Pack}

theorem stored (h : Loading env e w u) (hs : Stored env u u') : Loading env e w u' where
  others i hi := by rw [hs.entityAt]; exact h.others i hi
  backup := by rw [hs.entityAt]; exact h.backup
  nextEntity := hs.nextEntity.trans h.nextEntity
  sent := hs.sent.trans h.sent
  kept p hp := hs.stocked p (h.kept p hp)
  stocked := by rw [hs.pack]; exact hs.stocked _ h.stocked
  distinct := by rw [hs.pack]; exact h.distinct
  shell := by rw [hs.pack]; exact h.shell

theorem setPack (h : Loading env e w u) (hstocked : u.Stocked env p) (hdistinct : p.Distinct)
    (hshell : p.shell = (u.pack e).shell) : Loading env e w (u.setPack e p) where
  others i hi := by rw [World.setPack, World.entityAt_setEntity_of_ne _ hi]; exact h.others i hi
  backup := by rw [World.backup_setPack]; exact h.backup
  nextEntity := h.nextEntity
  sent := h.sent
  kept q hq := ⟨(h.kept q hq).cards, (h.kept q hq).items, (h.kept q hq).equips⟩
  stocked := by rw [World.pack_setPack_self]; exact ⟨hstocked.cards, hstocked.items, hstocked.equips⟩
  distinct := by rw [World.pack_setPack_self]; exact hdistinct
  shell := by rw [World.pack_setPack_self, hshell]; exact h.shell

/-- A card is copied. -/
theorem card (h : Loading env e w u) {c : ℤ} (hc : env.HasCard (u.cardAt c).baseid) :
    wp (do
      let new ← cardNew env ((← get).cardAt c).baseid
      modifyPack e fun p => { p with cards := p.cards ++ [new] })
      (fun _ u' => Loading env e w u' ∧ (u'.pack e).equips = (u.pack e).equips) (fun _ _ => False) u := by
  rw [wp_bind, wp_get, wp_bind]
  refine wp_mono (stored_cardNew _ u) ?_ fun _ _ hfail => hfail.2 hc
  rintro new u' ⟨hstored, rfl, hnew, hcard⟩
  rw [wp_modifyPack]
  have h' := h.stored hstored
  have hfresh : u.nextCard ∉ (u'.pack e).cards := by
    rw [hstored.pack]
    exact fun hmem => lt_irrefl _ (h.stocked.cards _ hmem).1
  refine ⟨h'.setPack (h'.stocked.addCard hnew hcard) (h'.distinct.addCard hfresh) rfl, ?_⟩
  rw [World.pack_setPack_self, hstored.pack]

/-- An item is copied into the bag. -/
theorem item (h : Loading env e w u) {i : ℤ} (hi : env.HasItem (u.itemAt i).baseid) :
    wp (do
      let item := (← get).itemAt i
      let new ← itemNew env item.baseid item.number
      modifyPack e fun p => { p with items := p.items ++ [new] })
      (fun _ u' => Loading env e w u' ∧ (u'.pack e).equips = (u.pack e).equips) (fun _ _ => False) u := by
  rw [wp_bind, wp_get, wp_bind]
  refine wp_mono (stored_itemNew _ _ u) ?_ fun _ _ hfail => hfail.2 hi
  rintro new u' ⟨hstored, rfl, hnew, hitem⟩
  rw [wp_modifyPack]
  have h' := h.stored hstored
  have hfresh : u.nextItem ∉ (u'.pack e).items := by
    rw [hstored.pack]
    exact fun hmem => lt_irrefl _ (h.stocked.items _ hmem).1
  refine ⟨h'.setPack (h'.stocked.addItem hnew hitem) (h'.distinct.addItem hfresh) rfl, ?_⟩
  rw [World.pack_setPack_self, hstored.pack]

/-- The equipment is copied, slot by slot. -/
theorem equips {xs : List (ℤ × ℤ)} (hxs : ∀ u, Loading env e w u → ∀ x ∈ xs, env.HasItem (u.itemAt x.2).baseid)
    (h : Loading env e w u) (hslots : ((u.pack e).equips.map Prod.fst ++ xs.map Prod.fst).Nodup) :
    wp (xs.forM fun (slot, i) => do
      let item := (← get).itemAt i
      let new ← itemNew env item.baseid item.number
      modifyPack e fun p => { p with equips := p.equips ++ [(slot, new)] })
      (fun _ u' => Loading env e w u') (fun _ _ => False) u := by
  induction xs generalizing u with
  | nil => exact h
  | cons x xs ih =>
    have hx := hxs u h x (List.mem_cons_self ..)
    show wp ((do
      let item := (← get).itemAt x.2
      let new ← itemNew env item.baseid item.number
      modifyPack e fun p => { p with equips := p.equips ++ [(x.1, new)] }) >>= fun _ => xs.forM _) _ _ u
    rw [wp_bind, wp_bind, wp_get, wp_bind]
    refine wp_mono (stored_itemNew _ _ u) ?_ fun _ _ hfail => hfail.2 hx
    rintro new u' ⟨hstored, rfl, hnew, hitem⟩
    rw [wp_modifyPack]
    have h' := h.stored hstored
    have hfree : x.1 ∉ (u'.pack e).equips.map Prod.fst := by
      rw [hstored.pack]
      exact fun hmem => (List.nodup_append.1 hslots).2.2 _ hmem _ (List.mem_cons_self ..) rfl
    refine ih (fun v hv y hy => hxs v hv y (List.mem_cons_of_mem _ hy)) ?_ ?_
    · exact h'.setPack (h'.stocked.addEquip hnew hitem x.1)
        ⟨h'.distinct.cards, h'.distinct.items, Assoc.nodup_concat h'.distinct.equips hfree⟩ rfl
    · rw [World.pack_setPack_self, List.map_append, List.append_assoc, hstored.pack]
      exact hslots

end Loading

/-- The pack of a match before anything is copied into it. -/
theorem loading_putAside (w : World) (e : ℤ) :
    Loading env e w ((w.putAside e).setPack e (((w.putAside e).pack e).copyNumbers (w.pack e))) := by
  have hpack : ((w.putAside e).setPack e (((w.putAside e).pack e).copyNumbers (w.pack e))).pack e =
      ({ span := .match } : Pack).copyNumbers (w.pack e) := by
    rw [World.pack_setPack_self, World.pack_putAside_self]
  refine ⟨fun i hi => ?_, ?_, rfl, rfl, fun p hp => ⟨hp.cards, hp.items, hp.equips⟩, ?_, ?_, ?_⟩
  · rw [World.setPack, World.entityAt_setEntity_of_ne _ hi, World.putAside, World.entityAt_setEntity_of_ne _ hi]
  · rw [World.backup_setPack, World.backup_putAside]
  · rw [hpack]
    exact ⟨by rintro _ ⟨⟩, by rintro _ ⟨⟩, by rintro _ ⟨⟩⟩
  · rw [hpack]
    exact ⟨List.nodup_nil, List.nodup_nil, List.nodup_nil⟩
  · rw [hpack]
    rfl

/-- **The pack of a match is loaded** from a pack in order; nothing goes wrong. -/
theorem loading_delivery (h : w.Orderly env enters e) (hspan : Span.match.value < (w.pack e).span.value) :
    wp (delivery env (w.pack e) .match (modifyPack e))
      (fun _ u => Loading env e w u ∧ (u.pack e).puppets = (w.pack e).puppets ∧
        (u.pack e).placeholders = (w.pack e).placeholders) (fun _ _ => False) (w.putAside e) := by
  rw [delivery, wp_bind, wp_assertion]
  refine ⟨fun _ => ?_, fun hnot => absurd (fun hsame => ?_) hnot⟩
  swap
  · rw [hsame] at hspan
    exact lt_irrefl _ hspan
  rw [if_pos hspan, wp_bind, wp_modifyPack, wp_bind]
  have hstart := @loading_putAside env w e
  have hnone : (((w.putAside e).setPack e (((w.putAside e).pack e).copyNumbers (w.pack e))).pack e).equips = [] := by
    rw [World.pack_setPack_self, World.pack_putAside_self]
    rfl
  refine wp_mono (wp_forM (I := fun u => Loading env e w u ∧ (u.pack e).equips = []) (fun c hc u hu => ?_)
    ⟨hstart, hnone⟩) (fun _ u hu => ?_) fun _ _ h => h
  · have hcard := ((hu.1.kept _ h.stocked).cards c (env.mem_pairs.1 hc)).2
    exact wp_mono (hu.1.card hcard) (fun _ _ hv => ⟨hv.1, hv.2.trans hu.2⟩) fun _ _ h => h
  rw [wp_bind]
  refine wp_mono (wp_forM (I := fun u => Loading env e w u ∧ (u.pack e).equips = []) (fun i hi u hu => ?_) hu)
    (fun _ u hu => ?_) fun _ _ h => h
  · have hitem := ((hu.1.kept _ h.stocked).items i (env.mem_pairs.1 hi)).2
    exact wp_mono (hu.1.item hitem) (fun _ _ hv => ⟨hv.1, hv.2.trans hu.2⟩) fun _ _ h => h
  rw [wp_bind]
  refine wp_mono (Loading.equips (fun u hu x hx => ((hu.kept _ h.stocked).equips x hx).2) hu.1 ?_) (fun _ u hu => ?_)
    fun _ _ h => h
  · rw [hu.2]
    exact h.neat.distinct.equips
  rw [wp_modifyPack]
  refine ⟨hu.setPack ⟨hu.stocked.cards, hu.stocked.items, hu.stocked.equips⟩
    ⟨hu.distinct.cards, hu.distinct.items, hu.distinct.equips⟩ rfl, ?_, ?_⟩
  · rw [World.pack_setPack_self]
  · rw [World.pack_setPack_self]

/-- An entity that has loaded the pack of a match is in order. -/
theorem Loading.orderly (hu : Loading env e w u) (h : w.Orderly env enters e)
    (hspan : Span.match.value < (w.pack e).span.value) (hbackup : (w.entityAt e).backup = none)
    (hpuppets : (u.pack e).puppets = (w.pack e).puppets)
    (hplaceholders : (u.pack e).placeholders = (w.pack e).placeholders) : u.Orderly env enters e := by
  obtain ⟨K, hclosed, hlater, hkeeps⟩ := h.kin
  have hdependents : (u.pack e).dependents e = (w.pack e).dependents e := by
    rw [Pack.dependents, hpuppets, hplaceholders, Pack.dependents]
  have hhp : (u.pack e).hp = (w.pack e).hp := (congrArg Pack.hp hu.shell :)
  have hmaxhp : (u.pack e).maxhp = (w.pack e).maxhp := (congrArg Pack.maxhp hu.shell :)
  have hspan' : (u.pack e).span = .match := (congrArg Pack.span hu.shell :)
  refine ⟨h.pos, hu.nextEntity ▸ h.lt, hhp ▸ h.hp, hmaxhp ▸ h.maxhp,
    ⟨hu.distinct, h.neat.lineUp.congr hpuppets hplaceholders⟩, hu.stocked, ?_, ?_, K, ?_, ?_, ?_, ?_⟩
  · rw [hu.backup]
    simp
  · rw [hu.backup]
    rintro b ⟨⟩
    exact ⟨hspan', hspan, h.neat, hu.kept _ h.stocked⟩
  · intro s hs
    have hne : s ≠ e := by
      rintro rfl
      exact lt_irrefl _ (hlater _ hs).1
    rw [World.pack, hu.others s hne]
    exact hclosed s hs
  · intro s hs
    rw [hu.nextEntity]
    exact hlater s hs
  · show (u.pack e).dependents e ⊆ K
    rw [hdependents]
    exact hkeeps.pack
  · rw [hu.backup]
    rintro b ⟨⟩
    exact hkeeps.pack

/-- The track of programs that write entities only. -/
def entityOnlyTrack : Track Fault World where
  ok w w' := { w' with entityAt := w.entityAt, early := w.early } = w
  error _ w w' := { w' with entityAt := w.entityAt, early := w.early } = w
  refl _ := rfl
  trans {w _ _} h h' := (congrArg (fun u : World => { u with entityAt := w.entityAt, early := w.early }) h').trans h
  trans_error {_ w _ _} h h' := (congrArg (fun u : World => { u with entityAt := w.entityAt, early := w.early }) h').trans h

theorem entityOnly_modifyPack (e : ℤ) (f : Pack → Pack) : entityOnlyTrack.Follows (modifyPack e f) :=
  follows_modify fun _ => rfl

/-- The pack with cards dealt. -/
def Pack.deal (p : Pack) (cs : List ℤ) : Pack := { p with stackDeal := p.stackDeal ++ cs, dealt := p.dealt ++ cs }

/-- Dealing the cards of a pack keeps it in order, and the client is told nothing. -/
theorem mirrored_deal (h : w.Orderly env enters e) (hdeal : (w.pack e).stackDeal = []) :
    wp ((env.pairs (w.pack e).cards).forM fun c => do
      stackDealInsert e c
      modifyPack e fun p => { p with dealt := p.dealt ++ [c] })
      (fun _ w' => w'.Orderly env enters e ∧ Mirrored e w w') (fun _ _ => False) w := by
  have honly : entityOnlyTrack.Follows ((env.pairs (w.pack e).cards).forM fun c => do
      stackDealInsert e c
      modifyPack e fun p => { p with dealt := p.dealt ++ [c] }) := by
    refine Follows.forM fun c _ => Follows.bind ?_ fun _ => entityOnly_modifyPack e _
    refine (follows_get.bind fun _ => follows_pure _).bind fun p => ?_
    refine Follows.bind (Follows.ite (fun _ => follows_pure _) fun _ => follows_throw fun _ => rfl) fun _ => ?_
    exact (follows_modify fun _ => rfl).bind fun _ => entityOnly_modifyPack e _
  have hnodup := (env.pairs_perm _).nodup_iff.2 h.neat.distinct.cards
  refine wp_mono (wp_and (wp_dealLoop (E := fun _ _ => False) hnodup fun c _ => ?_) (honly w)) ?_ fun _ _ h => h.1
  · rw [hdeal]
    exact List.not_mem_nil
  rintro _ w' ⟨hdealing, hrest⟩
  have hentity : w'.entityAt = ((w.setPack e ((w.pack e).deal (env.pairs (w.pack e).cards))).tell []).entityAt := by
    funext i
    by_cases hi : i = e
    · rw [hi, hdealing.entity]
      exact (World.entityAt_setEntity_self ..).symm
    · rw [hdealing.others i hi]
      exact (World.entityAt_setEntity_of_ne w hi _).symm
  have hneat : ((w.pack e).deal (env.pairs (w.pack e).cards)).Neat e :=
    ⟨⟨h.neat.distinct.cards, h.neat.distinct.items, h.neat.distinct.equips⟩, h.neat.lineUp.congr rfl rfl⟩
  have hset := h.setPack hneat ⟨h.stocked.cards, h.stocked.items, h.stocked.equips⟩ rfl rfl rfl (List.Subset.refl _) []
  refine ⟨hset.heap hentity (congrArg World.nextEntity hrest :) fun p hp => ?_, .of_sent (congrArg World.sent hrest :) ?_⟩
  · have hcard : w'.cardAt = w.cardAt := (congrArg World.cardAt hrest :)
    have hitem : w'.itemAt = w.itemAt := (congrArg World.itemAt hrest :)
    have hnextCard : w'.nextCard = w.nextCard := (congrArg World.nextCard hrest :)
    have hnextItem : w'.nextItem = w.nextItem := (congrArg World.nextItem hrest :)
    refine ⟨?_, ?_, ?_⟩
    · rw [hcard, hnextCard]
      exact hp.cards
    · rw [hitem, hnextItem]
      exact hp.items
    · rw [hitem, hnextItem]
      exact hp.equips
  · rw [World.pack, hdealing.entity]
    rfl

/-- Entering a match, a living entity gets a copy of its pack, and the client is told of it as a whole. -/
theorem mirrored_enterMatch (act : Act → Run Unit) (fuel : ℕ) (henters : enters) :
    (mirrorTrack env enters e).Follows (enterMatch env act fuel e) := by
  intro w
  refine wp_imp fun h => ?_
  rw [enterMatch, wp_bind, wp_get, wp_bind, wp_assertion]
  refine ⟨fun hbackup => ?_, fun _ => ⟨h, .refl e w⟩⟩
  rw [wp_bind, wp_modifyEntity, wp_bind]
  show wp _ _ _ (w.putAside e)
  have hspan := h.home hbackup henters
  refine wp_mono (loading_delivery h hspan) ?_ fun _ _ hfalse => hfalse.elim
  rintro _ u ⟨hu, hpuppets, hplaceholders⟩
  have hhp : (u.pack e).hp = (w.pack e).hp := (congrArg Pack.hp hu.shell :)
  have hdeal : (u.pack e).stackDeal = [] := (congrArg Pack.stackDeal hu.shell :)
  have horderly := hu.orderly h hspan hbackup hpuppets hplaceholders
  rw [wp_bind, wp_getPack, wp_ite]
  refine ⟨fun hzero => absurd (hhp ▸ hzero) h.hp.ne', fun _ => ?_⟩
  rw [wp_bind, wp_notifyClient, wp_bind, wp_getPack]
  have htold : Mirrored e w (u.tell ((u.pack e).notifyCalls env e)) :=
    .of_replay (by rw [← hu.sent]; rfl) (fun _ => Pack.entity_notifyCalls) (horderly.replay_notifyCalls _)
  refine wp_mono (mirrored_deal (horderly.tell _) hdeal) ?_ fun _ _ hfalse => hfalse.elim
  exact fun _ w' h' => ⟨h'.1, htold.trans h'.2⟩

end Match

/-! ### Runs -/

/-- Every call keeps the copy of the client right, whether it returns or raises. -/
theorem BagCall.mirrored (fuel : ℕ) {enters : Prop} {e : ℤ} {call : BagCall} (henters : call = .enterMatch → enters) :
    (mirrorTrack env enters e).Follows (call.run env fuel e) := by
  have hdiscard {α : Type} {x : Run α} (hx : (mirrorTrack env enters e).Follows x) :
      (mirrorTrack env enters e).Follows (discard x) := fun w => (wp_discard x).2 (hx w)
  cases call with
  | addCard baseid => exact hdiscard (mirrored_addCard baseid)
  | removeCard card => exact mirrored_removeCard card
  | addItem baseid number => exact mirrored_addItem baseid number
  | removeItem item number => exact mirrored_removeItem item number
  | addEquip item slot =>
    cases slot with
    | none => exact (follows_get.bind fun _ => follows_pure _).bind fun p => mirrored_addEquip item _
    | some slot => exact mirrored_addEquip item slot
  | removeEquip slot =>
    cases slot with
    | none => exact follows_throw (mirrorTrack env enters e).refl
    | some slot => exact hdiscard (mirrored_removeEquip slot)
  | lineUp call => exact hdiscard (mirrored_lineUp fuel call)
  | addGold value => exact mirrored_addGold value
  | notifyClient => exact mirrored_notifyClient
  | enterMatch => exact mirrored_enterMatch _ fuel (henters rfl)
  | exitMatch => exact mirrored_exitMatch

/-- The puppets of a new entity have been made after it. -/
theorem World.Sound.later {w : World} {n : ℕ} {e : ℤ} (h : w.Sound n e) :
    ∃ K, w.Closed K ∧ w.Later K e ∧ (w.pack e).dependents e ⊆ K := by
  cases n with
  | zero => exact h.elim
  | succ n =>
    refine ⟨((w.pack e).dependents e).flatMap (w.kin n), fun s hs t ht => ?_, fun s hs => ?_, fun t ht => ?_⟩
    · obtain ⟨r, hr, hrs⟩ := List.mem_flatMap.1 hs
      exact List.mem_flatMap.2 ⟨r, hr, (h.2.2 r hr).2.closed s hrs t ht⟩
    · obtain ⟨r, hr, hrs⟩ := List.mem_flatMap.1 hs
      obtain ⟨hlt, hsound⟩ := h.2.2 r hr
      exact ⟨hlt.trans_le (hsound.of_mem_kin hrs).1, (hsound.of_mem_kin hrs).2.1⟩
    · exact List.mem_flatMap.2 ⟨t, ht, (h.2.2 t ht).2.mem_kin⟩

/-- A new entity that lives is in order. -/
theorem Made.orderly {baseid e : ℤ} {side : Side} {span : Span} {n : ℕ} {w : World}
    (h : Made env baseid side span n e w) (hpos : 0 < e) (hhp : 0 < (w.pack e).hp) (hmaxhp : 0 < (w.pack e).maxhp)
    (hdistinct : (w.pack e).Distinct) {enters : Prop} (henters : enters → Span.match.value < span.value) :
    w.Orderly env enters e := by
  obtain ⟨K, hclosed, hlater, hkeeps⟩ := h.sound.later
  refine ⟨hpos, h.sound.lt, hhp, hmaxhp, ⟨hdistinct, h.lineUp⟩, h.stocked, ?_, ?_, K, hclosed, hlater, hkeeps, ?_⟩
  · rw [h.span]
    exact fun _ => henters
  · rw [h.backup]
    intro b hb
    cases hb
  · intro b hb
    rw [h.backup] at hb
    cases hb

/-- A client that takes what it has been told since the world `w₀` fails no assertion, and has a right copy
of the pack then. -/
def Client.Copies (c : Client) (e : ℤ) (w₀ w : World) : Prop :=
  ∃ told c', w.sent = w₀.sent ++ told ∧ c.replay told = some c' ∧ c' e = (w.pack e).mirror

theorem Client.Copies.trans {c : Client} {e : ℤ} {w₀ w w' : World} (h : c.Copies e w₀ w) (h' : Mirrored e w w') :
    c.Copies e w₀ w' := by
  obtain ⟨told, c', hsent, hc', hright⟩ := h
  obtain ⟨more, hmore, hreplay⟩ := h'
  obtain ⟨c'', hc'', hright'⟩ := hreplay c' hright
  refine ⟨told ++ more, c'', by rw [hmore, hsent, List.append_assoc], ?_, hright'⟩
  rw [Client.replay_append, hc']
  exact hc''

/-- **The client's copy follows the pack**: from the moment an entity is made, whatever calls follow while
it lives, with any arguments and whether they return or raise, a client that takes all that it has been
told since, in whatever state it was, fails no assertion and has the tables and the gold of the pack. The
entity is made for longer than a match, or for a match and enters none. -/
theorem client_mirrors {side : Side} {span : Span} {depth : ℕ} {master : Option ℤ} {baseid e : ℤ} {w₀ w : World}
    (hnew : entityNew env side span depth master baseid w₀ = .ok e w) (hpos : 0 < w₀.nextEntity)
    (hhp : 0 < (w.pack e).hp) (hmaxhp : 0 < (w.pack e).maxhp) (fuel : ℕ) (calls : List BagCall)
    (hspan : .enterMatch ∈ calls → Span.match.value < span.value) (c : Client) :
    c.Copies e w₀ (calls.foldl (fun w call => endState (call.run env fuel e) w) w) := by
  have hmade := @wp_entityNew env side span depth master baseid w₀
  have hpresented := @presented_entityNew env side span depth master baseid w₀ hpos
  rw [wp_ok hnew] at hmade hpresented
  obtain ⟨rfl, hgrown, hmade⟩ := hmade
  have hstart := hmade.orderly hpos hhp hmaxhp hpresented.distinct hspan
  obtain ⟨told, hsent, -, hreplay⟩ := hpresented.told
  obtain ⟨c', hc', hright⟩ := hreplay c
  -- What one call tells comes after what has been told before.
  have hrun (rest : List BagCall) (hrest : rest ⊆ calls) {w : World} (h : w.Orderly env (.enterMatch ∈ calls) w₀.nextEntity)
      (hcopies : c.Copies w₀.nextEntity w₀ w) :
      c.Copies w₀.nextEntity w₀ (rest.foldl (fun w call => endState (call.run env fuel w₀.nextEntity) w) w) := by
    induction rest generalizing w with
    | nil => exact hcopies
    | cons call rest ih =>
      have hcall : call = .enterMatch → BagCall.enterMatch ∈ calls := fun heq => heq ▸ hrest (List.mem_cons_self ..)
      obtain ⟨h', hmirrored⟩ := endState_of_wp (call.mirrored fuel hcall w) h
      exact ih (fun x hx => hrest (List.mem_cons_of_mem _ hx)) h' (hcopies.trans hmirrored)
  exact hrun calls (List.Subset.refl _) hstart ⟨told, c', hsent, hc', hright⟩

/-- Rows with the default values, and entities with hp. -/
def livingEnv : Env := { plainEnv with entityTable := fun _ => some { inithp := 3, maxhp := 3 } }

/-- A puppet is made, stands in the middle, goes through a match with its master and is removed. -/
theorem client_mirrors_living :
    ∃ w, entityNew livingEnv .allies .copy 1 none 7 { nextEntity := 1 } = .ok 1 w ∧
      Client.Copies (fun _ => {}) 1 { nextEntity := 1 } ([.lineUp (.addPuppet 8), .lineUp (.arrangePlaceholder (some 2) (some 2)),
        .addCard 5, .addItem 6 1, .enterMatch, .addGold 4, .exitMatch, .lineUp (.arrangePlaceholder (some 0) (some 2)),
        .lineUp (.removePuppet (some 2))].foldl (fun w call => endState (BagCall.run livingEnv 1 1 call) w) w) := by
  obtain ⟨w, hw⟩ : ∃ w, entityNew livingEnv .allies .copy 1 none 7 { nextEntity := 1 } = .ok 1 w := ⟨_, rfl⟩
  refine ⟨w, hw, client_mirrors hw (by decide) ?_ ?_ 1 _ (fun _ => by decide) _⟩
  · cases hw
    decide
  · cases hw
    decide

end Slam.Game
