import Slam.Game.EntityRecord
import Slam.Game.InitialPack

/-!
# What comes back from a record

An entity that is saved and restored should have the pack that it had (`Restored`), and saving it again at once should
write the same record. `Storable` says exactly when this is so, if `pack_init` does not raise.

It is so for hardly any pack. The record has no discount, so the discount is nil afterwards, while every pack that
`pack_init` has made for a newbie has one. Buffs are saved by a field that they do not have, and none comes back. Stacks of
one item share a key, and the last of them counts. Equips come back at their own identifiers instead of their slots.
A puppet in the line-up that has the base id of its master comes back as the master. And each time an entity is saved the
accomplished events are added to the record once more.

Cards, puppets, the numbers of the pack and items of one stack do come back. `Rebuilt` carries what has come back through the
loops of `pack_init`; new objects are made meanwhile, but none that is there is touched (`Grown`).
-/

namespace Slam.Game

open Raising

variable {env : Env}

/-! ### What a pack holds -/

/-- The numbers of a pack. -/
def Pack.numbers (p : Pack) : List ℤ :=
  [p.hp, p.mp, p.maxhp, p.roundMp, p.strength, p.armor, p.shield, p.roundCards, p.maxHoldCards, p.gold]

/-- A stack of items: its base id, its number and how often it has been used. -/
def World.stackOf (w : World) (i : ℤ) : ℤ × ItemRecord :=
  ((w.itemAt i).baseid, { number := (w.itemAt i).number, useTimes := (w.itemAt i).useTimes })

/-- A slot with the base id of what is in it. -/
def World.equipOf (w : World) (x : ℤ × ℤ) : ℤ × ℤ := (x.1, (w.itemAt x.2).baseid)

/-- A placeholder with the base id of the puppet there, or none for the master. -/
def World.placedOf (w : World) (e : ℤ) (x : ℤ × ℤ) : ℤ × Option ℤ :=
  (x.1, if x.2 = e then none else some (w.entityAt x.2).baseid)

/-- What is in a pack, without the identifiers of the objects. -/
structure Contents where
  cards : List ℤ := []
  items : List (ℤ × ItemRecord) := []
  equips : List (ℤ × ℤ) := []
  puppets : List ℤ := []
  placeholders : List (ℤ × Option ℤ) := []
  buffs : List (ℤ × ℤ) := []

/-- What is in the pack of the entity `e`. -/
def Pack.contents (p : Pack) (w : World) (e : ℤ) : Contents where
  cards := p.cards.map fun c => (w.cardAt c).baseid
  items := p.items.map w.stackOf
  equips := p.equips.map w.equipOf
  puppets := p.puppets.map fun t => (w.entityAt t).baseid
  placeholders := p.placeholders.map (w.placedOf e)
  buffs := p.buffs.map fun b => ((w.buffAt b).baseid, (w.buffAt b).layers)

/-- The same things, in whatever order. -/
structure Contents.Same (c c' : Contents) : Prop where
  cards : c.cards.Perm c'.cards
  items : c.items.Perm c'.items
  equips : c.equips.Perm c'.equips
  puppets : c.puppets.Perm c'.puppets
  placeholders : c.placeholders.Perm c'.placeholders
  buffs : c.buffs.Perm c'.buffs

/-- The pack `x'` of the entity `e` is what `x` was. -/
structure Restored (e : ℤ) (w : World) (x : FullPack) (w' : World) (x' : FullPack) : Prop where
  numbers : x'.numbers = x.numbers
  weakness : x'.weakness = x.weakness
  discount : x'.discount = x.discount
  contents : (x'.contents w' e).Same (x.contents w e)

/-- An entity saved in `w` is restored from `w₁` on, and saving it twice writes what saving it once writes. -/
def SavesWell {J : Type} (env : Env) (encode : EntityRecord → J) (decode : J → Option EntityRecord) (fuel : ℕ) (w : World)
    (v : Visitor) (x : FullPack) (w₁ : World) : Prop :=
  (∃ x' w', reload env encode decode fuel w v x w₁ = .ok x' w' ∧ Restored v.entity w x w' x') ∧
    encode (serialize env w { v with record := some (serialize env w v x) } x) = encode (serialize env w v x)

/-- Slots that are numbered from `first` on. -/
def idSlots (first : ℤ) : List ℤ → List (ℤ × ℤ)
  | [] => []
  | baseid :: baseids => (first, baseid) :: idSlots (first + 1) baseids

/-- The number that a stack gets when it is made with a number. -/
def Env.clampRow (env : Env) (baseid number : ℤ) : ℤ :=
  match env.itemTable baseid with
  | none => number
  | some base => base.clampNumber number

/-- **What can be saved and restored.** The discount is nil, as only a pack that has been restored before has it; no
item lies in two stacks; the equips lie at the slots that are the identifiers of their copies; no puppet in the line-up has
the base id of its master; there are no buffs; and no event of the scene is accomplished. -/
structure Storable (env : Env) (w : World) (v : Visitor) (x : FullPack) (w₁ : World) : Prop where
  discount : x.discount = none
  single : (x.items.map fun i => (w.itemAt i).baseid).Nodup
  clamped : ∀ i ∈ x.items, env.clampRow (w.itemAt i).baseid (w.itemAt i).number = (w.itemAt i).number
  equips : (idSlots (w₁.nextItem + x.items.length) (env.pairs (serializePack env w x).equips)).Perm (x.equips.map w.equipOf)
  puppets : ∀ y ∈ x.placeholders, y.2 ≠ v.entity → (w.entityAt y.2).baseid ≠ (w.entityAt v.entity).baseid
  buffs : x.buffs = []
  events : ∀ event ∈ v.events, event.accomplish = false

/-! ### The record -/

theorem Env.visit_perm {α : Type} {t : List (ℤ × α)} (h : (t.map Prod.fst).Nodup) : (env.visit t).Perm t := by
  have hself : (t.map Prod.fst).filterMap (fun k => (t.lookup k).map fun v => (k, v)) = t := by
    rw [List.filterMap_map]
    refine (List.filterMap_congr fun x hx => ?_).trans List.filterMap_some
    rw [Function.comp, (Assoc.lookup_eq_some h).2 (show (x.1, x.2) ∈ t from hx)]
    rfl
  have hperm := (env.pairs_perm (t.map Prod.fst)).filterMap fun k => (t.lookup k).map fun v => (k, v)
  rwa [hself] at hperm

/-- No buff is saved. -/
theorem buffs_serializePack (w : World) (x : FullPack) : (serializePack env w x).buffs = [] := by
  show (env.pairs x.buffs).foldl (fun t b => Assoc.assign t (w.buffAt b).baseid (w.buffAt b).layer) [] = []
  induction env.pairs x.buffs with
  | nil => rfl
  | cons b bs ih => exact ih

/-- One stack of each item is saved. -/
theorem nodup_items_serializePack (w : World) (x : FullPack) : ((serializePack env w x).items.map Prod.fst).Nodup :=
  Assoc.nodup_fill _ _ _ List.nodup_nil

/-- If no item lies in two stacks then the stacks are saved. -/
theorem items_serializePack {w : World} {x : FullPack} (h : (x.items.map fun i => (w.itemAt i).baseid).Nodup) :
    (serializePack env w x).items.Perm (x.items.map w.stackOf) := by
  have hkeys : ((env.pairs x.items).map fun i => (w.itemAt i).baseid).Nodup :=
    ((env.pairs_perm x.items).map _).nodup_iff.2 h
  have hfill : (serializePack env w x).items = (env.pairs x.items).map w.stackOf :=
    Assoc.fill_eq (l := []) _ _ _ hkeys
  rw [hfill]
  exact (env.pairs_perm x.items).map _

theorem placeholders_serializePack {w : World} {x : FullPack} (h : (x.placeholders.map Prod.fst).Nodup) :
    (serializePack env w x).placeholders.Perm (x.placeholders.map fun y => (y.1, (w.entityAt y.2).baseid)) := by
  have hperm := env.visit_perm h
  have hkeys : ((env.visit x.placeholders).map Prod.fst).Nodup := (hperm.map _).nodup_iff.2 h
  have hfill : (serializePack env w x).placeholders =
      (env.visit x.placeholders).map fun y => (y.1, (w.entityAt y.2).baseid) :=
    Assoc.fill_eq (l := []) _ _ _ hkeys
  rw [hfill]
  exact hperm.map _

theorem nodup_placeholders_serializePack {w : World} {x : FullPack} (h : (x.placeholders.map Prod.fst).Nodup) :
    ((serializePack env w x).placeholders.map Prod.fst).Nodup := by
  have hfst := (@placeholders_serializePack env w x h).map Prod.fst
  rw [List.map_map] at hfst
  exact hfst.nodup_iff.2 h

/-! ### The loops of `pack_init` -/

/-- What is in the pack has been made. -/
structure World.Holds (w : World) (p : Pack) : Prop where
  cards : ∀ c ∈ p.cards, c < w.nextCard
  items : ∀ i ∈ p.items, i < w.nextItem
  equips : ∀ y ∈ p.equips, y.2 < w.nextItem
  puppets : ∀ t ∈ p.puppets, t < w.nextEntity
  placeholders : ∀ y ∈ p.placeholders, y.2 < w.nextEntity

/-- The pack that is being filled has the numbers of `p₀` and holds `c` so far. -/
structure Rebuilt (e : ℤ) (p₀ : Pack) (c : Contents) (p : Pack) (w : World) : Prop where
  master : e < w.nextEntity
  numbers : p.numbers = p₀.numbers
  holds : w.Holds p
  contents : p.contents w e = c
  buffs : p.buffs = []

namespace Rebuilt

variable {e : ℤ} {p₀ p : Pack} {c : Contents} {w w' : World}

/-- The world may grow. -/
theorem grown (h : Rebuilt e p₀ c p w) (hgrown : Grown w w') : Rebuilt e p₀ c p w' where
  buffs := h.buffs
  master := h.master.trans_le hgrown.nextEntity
  numbers := h.numbers
  holds := {
    cards := fun c hc => (h.holds.cards c hc).trans_le hgrown.nextCard
    items := fun i hi => (h.holds.items i hi).trans_le hgrown.nextItem
    equips := fun y hy => (h.holds.equips y hy).trans_le hgrown.nextItem
    puppets := fun t ht => (h.holds.puppets t ht).trans_le hgrown.nextEntity
    placeholders := fun y hy => (h.holds.placeholders y hy).trans_le hgrown.nextEntity }
  contents := by
    have hitem {i : ℤ} (hi : i < w.nextItem) : w'.itemAt i = w.itemAt i := hgrown.itemAt i hi
    rw [← h.contents, Pack.contents, Pack.contents, h.buffs]
    congr 1
    · exact List.map_congr_left fun c hc => by rw [hgrown.cardAt c (h.holds.cards c hc)]
    · exact List.map_congr_left fun i hi => by rw [World.stackOf, hitem (h.holds.items i hi), World.stackOf]
    · exact List.map_congr_left fun y hy => by rw [World.equipOf, hitem (h.holds.equips y hy), World.equipOf]
    · exact List.map_congr_left fun t ht => by rw [hgrown.entityAt t (h.holds.puppets t ht)]
    · exact List.map_congr_left fun y hy => by
        rw [World.placedOf, hgrown.entityAt y.2 (h.holds.placeholders y hy), World.placedOf]

end Rebuilt

/-- An entry of the list of items, as it comes back. -/
def Env.restack (env : Env) (entry : ℤ × ItemRecord) : ℤ × ItemRecord :=
  (entry.1, { entry.2 with number := env.clampRow entry.1 entry.2.number })

/-- An entry of the placeholders, as it comes back; the master is known by its base id. -/
def replace (baseid : ℤ) (entry : ℤ × ℤ) : ℤ × Option ℤ := (entry.1, if entry.2 = baseid then none else some entry.2)

theorem idSlots_concat (first : ℤ) (baseids : List ℤ) (baseid : ℤ) :
    idSlots first (baseids ++ [baseid]) = idSlots first baseids ++ [(first + baseids.length, baseid)] := by
  induction baseids generalizing first with
  | nil => simp [idSlots]
  | cons b bs ih =>
    simp only [List.cons_append, idSlots, ih, List.length_cons]
    push_cast
    rw [add_assoc, add_comm 1]

section Loops

variable {e n : ℤ} {p₀ p : Pack} {c : Contents} {w : World}

theorem rebuilt_initCard (h : Rebuilt e p₀ c p w) (hnext : w.nextItem = n) (baseid : ℤ) :
    wp (initCard env p baseid) (fun p' w' => Rebuilt e p₀ { c with cards := c.cards ++ [baseid] } p' w' ∧
      w'.nextItem = n) (fun _ _ => True) w := by
  have hkeeps : wp (cardNew env baseid) (fun _ w' => w'.nextItem = n) (fun _ _ => True) w := by
    simp only [cardNew, wp_bind, wp_get, wp_modify]
    split
    · trivial
    · simp only [wp_bind, wp_modify, wp_assertion, wp_pure]
      exact ⟨fun _ => hnext, fun _ => trivial⟩
  rw [initCard, wp_bind]
  refine wp_mono (wp_and (grown_cardNew baseid w) hkeeps) ?_ fun _ _ _ => trivial
  rintro d w' ⟨⟨hgrown, rfl, hd, hbaseid, -⟩, hnext'⟩
  have h' := h.grown hgrown
  rw [wp_bind, wp_assertion]
  refine ⟨fun _ => ⟨{ master := h'.master, numbers := h'.numbers, holds := ?_, contents := ?_, buffs := h'.buffs }, hnext'⟩, fun _ => trivial⟩
  · refine { h'.holds with cards := fun c hc => ?_ }
    rcases List.mem_append.1 hc with hc | hc
    · exact h'.holds.cards c hc
    · rwa [List.mem_singleton.1 hc]
  · rw [← h'.contents]
    simp only [Pack.contents, List.map_append, List.map_singleton, hbaseid]

theorem rebuilt_restoreItem (h : Rebuilt e p₀ c p w) (hnext : w.nextItem = n) {entry : ℤ × ItemRecord}
    (hnew : entry.1 ∉ c.items.map Prod.fst) :
    wp (restoreItem env p entry) (fun p' w' => Rebuilt e p₀ { c with items := c.items ++ [env.restack entry] } p' w' ∧
      w'.nextItem = n + 1) (fun _ _ => True) w := by
  have hnone : (env.pairs p.items).find? (fun i => (w.itemAt i).baseid = entry.1) = none := by
    refine List.find?_eq_none.2 fun i hi => ?_
    rw [decide_eq_true_eq]
    intro hbaseid
    refine hnew ?_
    rw [← h.contents, ← hbaseid]
    exact List.mem_map.2 ⟨w.stackOf i, List.mem_map_of_mem (env.mem_pairs.1 hi), rfl⟩
  rw [restoreItem, wp_bind, wp_get, hnone, wp_bind]
  by_cases hitem : env.HasItem entry.1
  · obtain ⟨base, hbase, hscript⟩ := hitem
    rw [wp_ok (itemNew_apply hbase hscript entry.2.number w), wp_bind, wp_assertion]
    refine ⟨fun _ => ?_, fun _ => trivial⟩
    rw [wp_bind, wp_modify, wp_pure]
    have hnumber : env.clampRow entry.1 entry.2.number = base.clampNumber entry.2.number := by rw [Env.clampRow, hbase]
    obtain ⟨x, hx⟩ : ∃ x, x = ({ base.item entry.1 entry.2.number with useTimes := entry.2.useTimes } : Item) := ⟨_, rfl⟩
    -- The stack and its `use_times` make one new item.
    have hworld : ((w.newItem (base.item entry.1 entry.2.number)).setItem w.nextItem
        { (w.newItem (base.item entry.1 entry.2.number)).itemAt w.nextItem with useTimes := entry.2.useTimes }) = w.newItem x := by
      rw [World.itemAt_newItem, World.newItem, World.newItem, World.setItem, World.setItem, World.setItem,
        Function.update_idem, hx]
    rw [hworld]
    have hself := w.itemAt_newItem x
    have hlt : w.nextItem < (w.newItem x).nextItem := Int.lt_succ _
    have hstack : (w.newItem x).stackOf w.nextItem = env.restack entry := by
      rw [World.stackOf, hself, hx, Env.restack, hnumber]
      rfl
    have hcount : (w.newItem x).nextItem = n + 1 := by rw [← hnext]; rfl
    have h' := h.grown (Grown.newItem w x)
    refine ⟨{ master := h'.master, numbers := h'.numbers, holds := ?_, contents := ?_, buffs := h'.buffs }, hcount⟩
    · refine { h'.holds with items := fun i hi => ?_ }
      rcases List.mem_append.1 hi with hi | hi
      · exact h'.holds.items i hi
      · rwa [List.mem_singleton.1 hi]
    · rw [← h'.contents]
      simp only [Pack.contents, List.map_append, List.map_singleton, hstack]
  · refine wp_mono (grown_itemNew entry.1 entry.2.number w) ?_ fun _ _ _ => trivial
    rintro i w' ⟨-, -, -, -, hhas⟩
    exact absurd hhas hitem

theorem rebuilt_restoreEquip (h : Rebuilt e p₀ c p w) (hnext : w.nextItem = n) (baseid : ℤ) :
    wp (restoreEquip env p baseid) (fun p' w' => Rebuilt e p₀ { c with equips := c.equips ++ [(n, baseid)] } p' w' ∧
      w'.nextItem = n + 1) (fun _ _ => True) w := by
  rw [restoreEquip, wp_bind]
  by_cases hitem : env.HasItem baseid
  · obtain ⟨base, hbase, hscript⟩ := hitem
    rw [wp_ok (itemNew_apply hbase hscript 1 w), wp_bind, wp_assertion]
    refine ⟨fun _ => ?_, fun _ => trivial⟩
    rw [wp_pure]
    have hself := w.itemAt_newItem (base.item baseid 1)
    have hlt : w.nextItem < (w.newItem (base.item baseid 1)).nextItem := Int.lt_succ _
    have hequip : (w.newItem (base.item baseid 1)).equipOf (w.nextItem, w.nextItem) = (n, baseid) := by
      rw [World.equipOf, hself, hnext]
      rfl
    have hcount : (w.newItem (base.item baseid 1)).nextItem = n + 1 := by rw [← hnext]; rfl
    have h' := h.grown (Grown.newItem w (base.item baseid 1))
    refine ⟨{ master := h'.master, numbers := h'.numbers, holds := ?_, contents := ?_, buffs := h'.buffs }, hcount⟩
    · refine { h'.holds with equips := fun y hy => ?_ }
      rcases List.mem_append.1 hy with hy | hy
      · exact h'.holds.equips y hy
      · rwa [List.mem_singleton.1 hy]
    · rw [← h'.contents]
      simp only [Pack.contents, List.map_append, List.map_singleton, hequip]
  · refine wp_mono (grown_itemNew baseid 1 w) ?_ fun _ _ _ => trivial
    rintro i w' ⟨-, -, -, -, hhas⟩
    exact absurd hhas hitem

variable {side : Side} {span : Span} {fuel : ℕ} {master : Option ℤ}

theorem rebuilt_restorePuppet (h : Rebuilt e p₀ c p w) (baseid : ℤ) :
    wp (restorePuppet (entityNew env side span fuel master) p baseid)
      (fun p' w' => Rebuilt e p₀ { c with puppets := c.puppets ++ [baseid] } p' w') (fun _ _ => True) w := by
  rw [restorePuppet, wp_bind]
  refine wp_mono (wp_entityNew side span fuel master baseid w) ?_ fun _ _ _ => trivial
  rintro t w' ⟨rfl, hgrown, hmade⟩
  have h' := h.grown hgrown
  have hfresh : p.puppets.erase w.nextEntity = p.puppets :=
    List.erase_of_not_mem fun hmem => lt_irrefl _ (h.holds.puppets _ hmem)
  rw [wp_pure, hfresh]
  refine { master := h'.master, numbers := h'.numbers, holds := ?_, contents := ?_, buffs := h'.buffs }
  · refine { h'.holds with puppets := fun t ht => ?_ }
    rcases List.mem_append.1 ht with ht | ht
    · exact h'.holds.puppets t ht
    · rw [List.mem_singleton.1 ht]
      exact hmade.sound.lt
  · rw [← h'.contents]
    simp only [Pack.contents, List.map_append, List.map_singleton, hmade.baseid]

/-- An entity comes to a placeholder that is free. -/
theorem Rebuilt.place (h : Rebuilt e p₀ c p w) {slot t : ℤ} (ht : t < w.nextEntity) (hnew : slot ∉ c.placeholders.map Prod.fst) :
    Rebuilt e p₀ { c with placeholders := c.placeholders ++ [w.placedOf e (slot, t)] } (p.setPlaceholder slot t) w := by
  have hkeys : p.placeholders.map Prod.fst = c.placeholders.map Prod.fst := by
    rw [← h.contents]
    show _ = (p.placeholders.map (w.placedOf e)).map Prod.fst
    rw [List.map_map]
    rfl
  have hfree : (p.placeholders.filter fun y => y.1 ≠ slot) = p.placeholders :=
    Assoc.filter_eq_self fun hmem => hnew (hkeys ▸ hmem)
  rw [Pack.setPlaceholder, hfree]
  refine { master := h.master, numbers := h.numbers, holds := ?_, contents := ?_, buffs := h.buffs }
  · refine { h.holds with placeholders := fun y hy => ?_ }
    rcases List.mem_append.1 hy with hy | hy
    · exact h.holds.placeholders y hy
    · rwa [List.mem_singleton.1 hy]
  · rw [← h.contents]
    simp only [Pack.contents, List.map_append, List.map_singleton]

theorem rebuilt_restorePlaceholder (h : Rebuilt e p₀ c p w) (baseid : ℤ) {entry : ℤ × ℤ}
    (hnew : entry.1 ∉ c.placeholders.map Prod.fst) :
    wp (restorePlaceholder (entityNew env side span fuel master) e baseid p entry)
      (fun p' w' => Rebuilt e p₀ { c with placeholders := c.placeholders ++ [replace baseid entry] } p' w')
      (fun _ _ => True) w := by
  rw [restorePlaceholder, wp_ite]
  constructor
  · intro hmaster
    have hplaced : w.placedOf e (entry.1, e) = replace baseid entry := by
      rw [World.placedOf, if_pos rfl, replace, if_pos hmaster]
    exact hplaced ▸ h.place h.master hnew
  · intro hpuppet
    rw [wp_bind]
    refine wp_mono (wp_entityNew side span fuel master entry.2 w) ?_ fun _ _ _ => trivial
    rintro t w' ⟨rfl, hgrown, hmade⟩
    have hplaced : w'.placedOf e (entry.1, w.nextEntity) = replace baseid entry := by
      rw [World.placedOf, if_neg h.master.ne', replace, if_neg hpuppet, hmade.baseid]
    exact hplaced ▸ (h.grown hgrown).place hmade.sound.lt hnew

/-! Each loop of `pack_init`. -/

/-- A key that is visited now has not been visited before. -/
theorem notMem_of_nodup {α : Type} {xs done rest : List (ℤ × α)} {x : ℤ × α} (hkeys : (xs.map Prod.fst).Nodup)
    (hxs : xs = done ++ x :: rest) : x.1 ∉ done.map Prod.fst := by
  rw [hxs, List.map_append, List.map_cons] at hkeys
  exact fun hmem => (List.nodup_append.1 hkeys).2.2 _ hmem _ List.mem_cons_self rfl

theorem rebuilt_cards (h : Rebuilt e p₀ {} p w) (hnext : w.nextItem = n) (cards : List ℤ) :
    wp (cards.foldlM (initCard env) p) (fun p' w' => Rebuilt e p₀ { cards := cards } p' w' ∧ w'.nextItem = n)
      (fun _ _ => True) w :=
  wp_foldlM_done (I := fun done p w => Rebuilt e p₀ { cards := done } p w ∧ w.nextItem = n)
    (fun _ b _ _ _ _ h => rebuilt_initCard h.1 h.2 b) ⟨h, hnext⟩

theorem rebuilt_items (h : Rebuilt e p₀ c p w) (hnone : c.items = []) (hnext : w.nextItem = n) {items : List (ℤ × ItemRecord)}
    (hkeys : (items.map Prod.fst).Nodup) :
    wp (items.foldlM (restoreItem env) p)
      (fun p' w' => Rebuilt e p₀ { c with items := items.map env.restack } p' w' ∧ w'.nextItem = n + items.length)
      (fun _ _ => True) w := by
  refine wp_foldlM_done (I := fun done p w => Rebuilt e p₀ { c with items := done.map env.restack } p w ∧
    w.nextItem = n + done.length) (fun done x rest p w hxs h => ?_) ⟨?_, by simpa using hnext⟩
  · have hnew : x.1 ∉ (done.map env.restack).map Prod.fst := by
      rw [List.map_map]
      exact notMem_of_nodup hkeys hxs
    refine wp_mono (rebuilt_restoreItem h.1 h.2 hnew) (fun p' w' h' => ⟨?_, ?_⟩) fun _ _ _ => trivial
    · rw [List.map_append, List.map_singleton]
      exact h'.1
    · rw [h'.2, List.length_append, List.length_singleton]
      push_cast
      rw [add_assoc]
  · show Rebuilt e p₀ { c with items := [] } p w
    rw [← hnone]
    exact h

theorem rebuilt_equips (h : Rebuilt e p₀ c p w) (hnone : c.equips = []) (hnext : w.nextItem = n) (baseids : List ℤ) :
    wp (baseids.foldlM (restoreEquip env) p) (fun p' w' => Rebuilt e p₀ { c with equips := idSlots n baseids } p' w')
      (fun _ _ => True) w := by
  refine wp_mono (wp_foldlM_done (I := fun done p w => Rebuilt e p₀ { c with equips := idSlots n done } p w ∧
    w.nextItem = n + done.length) (fun done b rest p w _ h => ?_) ⟨?_, by simpa using hnext⟩) (fun _ _ h => h.1) fun _ _ h => h
  · refine wp_mono (rebuilt_restoreEquip h.1 h.2 b) (fun p' w' h' => ⟨?_, ?_⟩) fun _ _ _ => trivial
    · rw [idSlots_concat]
      exact h'.1
    · rw [h'.2, List.length_append, List.length_singleton]
      push_cast
      rw [add_assoc]
  · show Rebuilt e p₀ { c with equips := [] } p w
    rw [← hnone]
    exact h

theorem rebuilt_puppets (h : Rebuilt e p₀ c p w) (hnone : c.puppets = []) (baseids : List ℤ) :
    wp (baseids.foldlM (restorePuppet (entityNew env side span fuel master)) p)
      (Rebuilt e p₀ { c with puppets := baseids }) (fun _ _ => True) w := by
  refine wp_foldlM_done (I := fun done => Rebuilt e p₀ { c with puppets := done })
    (fun _ b _ _ _ _ h => rebuilt_restorePuppet h b) ?_
  rw [← hnone]
  exact h

theorem rebuilt_placeholders (h : Rebuilt e p₀ c p w) (hnone : c.placeholders = []) (baseid : ℤ) {entries : List (ℤ × ℤ)}
    (hkeys : (entries.map Prod.fst).Nodup) :
    wp (entries.foldlM (restorePlaceholder (entityNew env side span fuel master) e baseid) p)
      (Rebuilt e p₀ { c with placeholders := entries.map (replace baseid) }) (fun _ _ => True) w := by
  refine wp_foldlM_done (I := fun done => Rebuilt e p₀ { c with placeholders := done.map (replace baseid) })
    (fun done x rest p w hxs h => ?_) ?_
  · have hnew : x.1 ∉ (done.map (replace baseid)).map Prod.fst := by
      rw [List.map_map]
      exact notMem_of_nodup hkeys hxs
    refine wp_mono (rebuilt_restorePlaceholder h baseid hnew) (fun p' w' h' => ?_) fun _ _ _ => trivial
    rw [List.map_append, List.map_singleton]
    exact h'
  · show Rebuilt e p₀ { c with placeholders := [] } p w
    rw [← hnone]
    exact h

end Loops

/-- What comes back from a record, if the next item gets the identifier `n`. -/
def PackRecord.restored (q : PackRecord) (env : Env) (n baseid : ℤ) : Contents where
  cards := env.pairs q.cards
  items := (env.visit q.items).map env.restack
  equips := idSlots (n + q.items.length) (env.pairs q.equips)
  puppets := env.pairs q.puppets
  placeholders := (env.visit q.placeholders).map (replace baseid)

/-- **What `pack_init` makes of a record** without buffs, if it can make it at all. -/
theorem wp_packRestore {side : Side} {span : Span} {fuel : ℕ} {master : Option ℤ} {e baseid : ℤ} {q : PackRecord} {w : World}
    (he : e < w.nextEntity) (hitems : (q.items.map Prod.fst).Nodup) (hslots : (q.placeholders.map Prod.fst).Nodup)
    (hbuffs : q.buffs = []) :
    wp (packRestore env (entityNew env side span fuel master) e baseid span q) (fun x' w' =>
      x'.numbers = (q.initial span).numbers ∧ x'.weakness = q.weakness ∧ x'.discount = none ∧
        x'.contents w' e = q.restored env w.nextItem baseid) (fun _ _ => True) w := by
  have hinitial : Rebuilt e (q.initial span) {} (q.initial span) w :=
    ⟨he, rfl, ⟨nofun, nofun, nofun, nofun, nofun⟩, rfl, rfl⟩
  have hitems' : ((env.visit q.items).map Prod.fst).Nodup := ((env.visit_perm hitems).map _).nodup_iff.2 hitems
  have hslots' : ((env.visit q.placeholders).map Prod.fst).Nodup := ((env.visit_perm hslots).map _).nodup_iff.2 hslots
  have hlength : (env.visit q.items).length = q.items.length := (env.visit_perm hitems).length_eq
  rw [packRestore, wp_bind]
  refine wp_mono (rebuilt_cards hinitial rfl _) ?_ fun _ _ _ => trivial
  rintro p₁ w₁ ⟨hcards, hnext⟩
  rw [wp_bind]
  refine wp_mono (rebuilt_items hcards rfl hnext hitems') ?_ fun _ _ _ => trivial
  rintro p₂ w₂ ⟨hstacks, hnext⟩
  rw [hlength] at hnext
  rw [wp_bind]
  refine wp_mono (rebuilt_equips hstacks rfl hnext _) ?_ fun _ _ _ => trivial
  intro p₃ w₃ hequips
  rw [wp_bind]
  refine wp_mono (rebuilt_puppets hequips rfl _) ?_ fun _ _ _ => trivial
  intro p₄ w₄ hpuppets
  rw [wp_bind]
  refine wp_mono (rebuilt_placeholders hpuppets rfl baseid hslots') ?_ fun _ _ _ => trivial
  intro p₅ w₅ h
  have hvisit : env.visit q.buffs = [] := by
    rw [hbuffs]
    exact List.perm_nil.1 (@Env.visit_perm env ℤ [] List.nodup_nil)
  rw [wp_bind, wp_assertion]
  refine ⟨fun _ => ?_, fun _ => trivial⟩
  rw [wp_bind, hvisit]
  exact ⟨h.numbers, rfl, rfl, h.contents⟩

/-! ### When an entity comes back -/

section Saves

variable {J : Type} {encode : EntityRecord → J} {decode : J → Option EntityRecord} {fuel : ℕ} {w w₁ : World} {v : Visitor}
  {x x' : FullPack}

theorem lookup_serialize : (serialize env w v x).copies.lookup v.copyBaseid = some (serializeCopy env w v x) :=
  (Assoc.lookup_assign ..).trans (if_pos rfl)

/-- What is restored is made from the record of the pack, if the text between is read as it was written. -/
theorem reload_eq (hjson : ∀ r, decode (encode r) = some r) :
    reload env encode decode fuel w v x = packRestore env
      (entityNew env (w.entityAt v.entity).side x.span fuel (some v.entity)) v.entity (w.entityAt v.entity).baseid x.span
      (serializePack env w x) := by
  have hrecord : unserialize decode v.entity (some (encode (serialize env w v x))) =
      (pure (some { serialize env w v x with id := v.entity }) : Run (Option EntityRecord)) := by
    rw [unserialize, hjson]
  rw [reload, hrecord, pure_bind, packInitRecord, Option.bind_some, lookup_serialize]
  rfl

theorem lookup_serializeCopy : (serializeCopy env w v x).layers.lookup v.currentLayer = some v.eventsAccomplish :=
  (Assoc.lookup_assign ..).trans (if_pos rfl)

/-- Saving an entity again adds the accomplished events once more. -/
theorem serialize_again {v' : Visitor} (hv' : v' = { v with record := some (serialize env w v x) }) :
    v'.eventsAccomplish = v.eventsAccomplish ++ (v.events.filter Event.accomplish).map Event.baseid ∧
      serialize env w v' x = { v.recordOf with copies := Assoc.assign v.recordOf.copies v.copyBaseid (some
        { serializeCopy env w v x with layers := Assoc.assign v.copyOf.layers v.currentLayer (some v'.eventsAccomplish) }) } := by
  have hbaseid : v'.copyBaseid = v.copyBaseid := by rw [hv']
  have hlayer : v'.currentLayer = v.currentLayer := by rw [hv']
  have hrecord : v'.recordOf = serialize env w v x := by rw [hv']; rfl
  have hcopy : v'.copyOf = serializeCopy env w v x := by
    rw [Visitor.copyOf, hrecord, hbaseid, lookup_serialize]
    rfl
  have hevents : v'.events = v.events := by rw [hv']
  refine ⟨?_, ?_⟩
  · rw [Visitor.eventsAccomplish, hcopy, hlayer, hevents, lookup_serializeCopy]
    rfl
  · have hcopies : serializeCopy env w v' x = { serializeCopy env w v x with
        layers := Assoc.assign v.copyOf.layers v.currentLayer (some v'.eventsAccomplish) } := by
      rw [serializeCopy, hcopy, hlayer, serializeCopy, Assoc.assign_assign]
    rw [serialize, hrecord, hbaseid, hcopies, serialize, Assoc.assign_assign]

/-- Saving twice writes the same if and only if no event of the scene is accomplished. -/
theorem serialize_serialize :
    serialize env w { v with record := some (serialize env w v x) } x = serialize env w v x ↔
      ∀ event ∈ v.events, event.accomplish = false := by
  obtain ⟨v', hv'⟩ : ∃ v', v' = { v with record := some (serialize env w v x) } := ⟨_, rfl⟩
  obtain ⟨hevents, hagain⟩ := serialize_again hv'
  rw [← hv', hagain]
  constructor
  · intro hsame
    have hfound := congrArg (fun r : EntityRecord => r.copies.lookup v.copyBaseid) hsame
    dsimp only at hfound
    rw [lookup_serialize, Assoc.lookup_assign, if_pos rfl, Option.some_inj] at hfound
    have hlayers := congrArg (fun c : CopyRecord => c.layers.lookup v.currentLayer) hfound
    dsimp only at hlayers
    rw [Assoc.lookup_assign, lookup_serializeCopy, if_pos rfl, Option.some_inj, hevents,
      List.append_right_eq_self, List.map_eq_nil_iff, List.filter_eq_nil_iff] at hlayers
    exact fun event hevent => by simpa using hlayers event hevent
  · intro hnone
    have hadded : (v.events.filter Event.accomplish).map Event.baseid = [] := by
      rw [List.map_eq_nil_iff, List.filter_eq_nil_iff]
      exact fun event hevent => by simp [hnone event hevent]
    rw [hevents, hadded, List.append_nil]
    rfl

/-- The stacks come back if no item lies in two of them. -/
theorem items_restored_iff :
    ((env.visit (serializePack env w x).items).map env.restack).Perm (x.items.map w.stackOf) ↔
      (x.items.map fun i => (w.itemAt i).baseid).Nodup ∧
        ∀ i ∈ x.items, env.clampRow (w.itemAt i).baseid (w.itemAt i).number = (w.itemAt i).number := by
  have hkeys := @nodup_items_serializePack env w x
  have hvisit := env.visit_perm hkeys
  -- The stacks of a pack without two of an item are those of its record.
  have hsame (hsingle : (x.items.map fun i => (w.itemAt i).baseid).Nodup) :
      ((env.visit (serializePack env w x).items).map env.restack).Perm (x.items.map w.stackOf) ↔
        ∀ i ∈ x.items, env.restack (w.stackOf i) = w.stackOf i := by
    have hsaved := ((hvisit.trans (items_serializePack hsingle)).map env.restack)
    rw [List.map_map] at hsaved
    exact hsaved.congr_left _ |>.trans (Assoc.map_perm_map_iff hsingle (fun _ => rfl) fun _ => rfl)
  have hclamp (i : ℤ) : env.restack (w.stackOf i) = w.stackOf i ↔
      env.clampRow (w.itemAt i).baseid (w.itemAt i).number = (w.itemAt i).number := by
    simp only [Env.restack, World.stackOf, Prod.mk.injEq, ItemRecord.mk.injEq, true_and, and_true]
  constructor
  · intro hperm
    have hsingle : (x.items.map fun i => (w.itemAt i).baseid).Nodup := by
      have hfst := hperm.map Prod.fst
      rw [List.map_map, List.map_map] at hfst
      exact hfst.nodup_iff.1 ((hvisit.map Prod.fst).nodup_iff.2 hkeys)
    exact ⟨hsingle, fun i hi => (hclamp i).1 ((hsame hsingle).1 hperm i hi)⟩
  · rintro ⟨hsingle, hclamped⟩
    exact (hsame hsingle).2 fun i hi => (hclamp i).2 (hclamped i hi)

/-- The line-up comes back if no puppet in it has the base id of the master. -/
theorem placeholders_restored_iff {e : ℤ} (hslots : (x.placeholders.map Prod.fst).Nodup) :
    ((env.visit (serializePack env w x).placeholders).map (replace (w.entityAt e).baseid)).Perm (x.placeholders.map (w.placedOf e)) ↔
      ∀ y ∈ x.placeholders, y.2 ≠ e → (w.entityAt y.2).baseid ≠ (w.entityAt e).baseid := by
  have hvisit := env.visit_perm (@nodup_placeholders_serializePack env w x hslots)
  have hsaved := (hvisit.trans (placeholders_serializePack hslots)).map (replace (w.entityAt e).baseid)
  rw [List.map_map] at hsaved
  refine (hsaved.congr_left _).trans ((Assoc.map_perm_map_iff hslots
    (f := replace _ ∘ fun y => (y.1, (w.entityAt y.2).baseid)) (g := w.placedOf e) (fun _ => rfl) fun _ => rfl).trans ?_)
  refine forall₂_congr fun y _ => ?_
  show ((y.1, if (w.entityAt y.2).baseid = (w.entityAt e).baseid then none else some (w.entityAt y.2).baseid) = w.placedOf e y) ↔ _
  rw [World.placedOf, Prod.mk.injEq]
  by_cases hy : y.2 = e
  · simp [hy]
  · by_cases hbaseid : (w.entityAt y.2).baseid = (w.entityAt e).baseid <;> simp [hy, hbaseid]

/-- What `pack_init` has made of the record is the pack as it was exactly if the pack can be restored. -/
theorem restored_iff {w' : World} (hslots : (x.placeholders.map Prod.fst).Nodup)
    (hnumbers : x'.numbers = ((serializePack env w x).initial x.span).numbers)
    (hweakness : x'.weakness = (serializePack env w x).weakness) (hdiscount : x'.discount = none)
    (hcontents : x'.contents w' v.entity = (serializePack env w x).restored env w₁.nextItem (w.entityAt v.entity).baseid)
    (hevents : ∀ event ∈ v.events, event.accomplish = false) :
    Restored v.entity w x w' x' ↔ Storable env w v x w₁ := by
  have hlength (h : (x.items.map fun i => (w.itemAt i).baseid).Nodup) :
      ((serializePack env w x).items.length : ℤ) = x.items.length := by
    rw [(items_serializePack h).length_eq, List.length_map]
  constructor
  · rintro ⟨-, -, hsameDiscount, hsame⟩
    rw [hcontents] at hsame
    obtain ⟨hsingle, hclamped⟩ := items_restored_iff.1 hsame.items
    refine ⟨hsameDiscount.symm.trans hdiscount, hsingle, hclamped, ?_, (placeholders_restored_iff hslots).1 hsame.placeholders,
      List.map_eq_nil_iff.1 hsame.buffs.nil_eq.symm, hevents⟩
    rw [← hlength hsingle]
    exact hsame.equips
  · intro h
    refine ⟨hnumbers, hweakness, hdiscount.trans h.discount.symm, ?_⟩
    rw [hcontents]
    refine ⟨?_, items_restored_iff.2 ⟨h.single, h.clamped⟩, ?_, ?_, (placeholders_restored_iff hslots).2 h.puppets, ?_⟩
    · exact (env.pairs_perm _).trans ((env.pairs_perm x.cards).map _)
    · show (idSlots (w₁.nextItem + (serializePack env w x).items.length) _).Perm _
      rw [hlength h.single]
      exact h.equips
    · exact (env.pairs_perm _).trans ((env.pairs_perm x.puppets).map _)
    · show List.Perm [] (x.buffs.map _)
      rw [h.buffs]
      exact .nil

/-- What a restored pack holds is what `PackRecord.restored` says. -/
theorem wp_reload (hjson : ∀ r, decode (encode r) = some r) (he : v.entity < w₁.nextEntity)
    (hslots : (x.placeholders.map Prod.fst).Nodup) :
    wp (reload env encode decode fuel w v x) (fun x' w' =>
      x'.numbers = ((serializePack env w x).initial x.span).numbers ∧ x'.weakness = (serializePack env w x).weakness ∧
        x'.discount = none ∧ x'.contents w' v.entity =
          (serializePack env w x).restored env w₁.nextItem (w.entityAt v.entity).baseid) (fun _ _ => True) w₁ := by
  rw [reload_eq hjson]
  exact wp_packRestore he (nodup_items_serializePack w x) (nodup_placeholders_serializePack hslots)
    (buffs_serializePack w x)

/-- **An entity that is saved comes back, and saving it twice changes nothing, exactly if it can be saved and restored** and
`pack_init` returns. -/
theorem savesWell_iff (hjson : ∀ r, decode (encode r) = some r) (he : v.entity < w₁.nextEntity)
    (hslots : (x.placeholders.map Prod.fst).Nodup) :
    SavesWell env encode decode fuel w v x w₁ ↔
      Returns (reload env encode decode fuel w v x) w₁ ∧ Storable env w v x w₁ := by
  have hinjective : Function.Injective encode := fun r r' h => by
    rw [← Option.some_inj, ← hjson, ← hjson, h]
  have hwp := @wp_reload env J encode decode fuel w w₁ v x hjson he hslots
  rw [SavesWell, hinjective.eq_iff, serialize_serialize]
  constructor
  · rintro ⟨⟨x', w', hok, hrestored⟩, hevents⟩
    obtain ⟨hnumbers, hweakness, hdiscount, hcontents⟩ := (wp_ok hok).1 hwp
    refine ⟨?_, (restored_iff hslots hnumbers hweakness hdiscount hcontents hevents).1 hrestored⟩
    rw [Returns, wp_ok hok]
    trivial
  · rintro ⟨hreturns, hstorable⟩
    obtain ⟨x', w', hok, -⟩ := exists_ok_of_wp hreturns
    obtain ⟨hnumbers, hweakness, hdiscount, hcontents⟩ := (wp_ok hok).1 hwp
    exact ⟨⟨x', w', hok, (restored_iff hslots hnumbers hweakness hdiscount hcontents hstorable.events).2 hstorable⟩,
      hstorable.events⟩

end Saves

/-- Only a pack that has been restored before has no discount: `pack_init` of a newbie gives it one, and `set_discount` leaves
one there. -/
theorem discount_packInitRecord {new : ℤ → Run ℤ} {e baseid : ℤ} {base : EntityBase} {span : Span} {copyBaseid : ℤ} (w : World) :
    wp (packInitRecord env new e baseid base span copyBaseid none) (fun x _ => x.discount.isSome) (fun _ _ => True) w := by
  show wp (packInit env new e baseid base span >>= fun p => pure ({ toPack := p } : FullPack)) _ _ w
  rw [wp_bind]
  exact wp_mono (wp_top _ _) (fun _ _ _ => rfl) fun _ _ h => h

theorem discount_setDiscount (x : FullPack) (value : ℚ) (w : World) :
    wp (setDiscount x value) (fun x' _ => x'.discount.isSome) (fun _ _ => True) w := by
  rw [setDiscount]
  split
  · trivial
  · rw [wp_bind, wp_assertion]
    exact ⟨fun _ => rfl, fun _ => trivial⟩

/-- Two stacks of item 7, an equip and a buff of the entity 1. -/
def hoardWorld : World where
  itemAt i := { baseid := if i = 2 then 8 else 7, base := {}, number := 1, useTimes := i }
  buffAt _ := { entity := 1, baseid := 3001, base := {}, layers := 4 }
  nextEntity := 2
  nextCard := 2
  nextItem := 3
  nextBuff := 1

/-- What the entity 1 owns there. -/
def hoard : FullPack where
  hp := 3
  maxhp := 5
  gold := 20
  cards := [0, 1]
  items := [0, 1]
  equips := [(1, 2)]
  placeholders := [(Placeholder.front, 1)]
  buffs := [0]

/-- What is left of it. -/
def remnant : FullPack where
  hp := 3
  maxhp := 5
  gold := 20
  cards := [0, 1]
  items := [1]
  placeholders := [(Placeholder.front, 1)]
  discount := none

/-- A pack that has been restored, with one stack, comes back. -/
theorem savesWell_remnant : SavesWell plainEnv id some 1 hoardWorld { entity := 1 } remnant hoardWorld := by
  have hreturns : Returns (reload plainEnv id some 1 hoardWorld { entity := 1 } remnant) hoardWorld := by decide +kernel
  have hstorable : Storable plainEnv hoardWorld { entity := 1 } remnant hoardWorld := by
    constructor <;> decide +kernel
  exact (savesWell_iff (fun _ => rfl) (by decide) (by decide)).2 ⟨hreturns, hstorable⟩

/-- A pack that has never been restored does not come back: its discount, a stack, its equip and its buff are lost. And
the accomplished event 9 is recorded twice. -/
theorem hoard_lost :
    ¬ SavesWell plainEnv id some 1 hoardWorld { entity := 1 } hoard hoardWorld ∧
      wp (reload plainEnv id some 1 hoardWorld { entity := 1 } hoard) (fun x' w' => x'.discount = none ∧
        (x'.contents w' 1).items = [(7, { number := 1, useTimes := 1 })] ∧ x'.equips.lookup 1 = none ∧ x'.buffs = [])
        (fun _ _ => False) hoardWorld ∧
      ∃ v : Visitor, v.eventsAccomplish = [9] ∧
        { v with record := some (serialize plainEnv hoardWorld v hoard) : Visitor }.eventsAccomplish = [9, 9] := by
  have hlost : wp (reload plainEnv id some 1 hoardWorld { entity := 1 } hoard) (fun x' w' => x'.discount = none ∧
      (x'.contents w' 1).items = [(7, { number := 1, useTimes := 1 })] ∧ x'.equips.lookup 1 = none ∧ x'.buffs = [])
      (fun _ _ => False) hoardWorld := by decide +kernel
  refine ⟨?_, hlost, { entity := 1, events := [{ id := 0, baseid := 9, category := .none, accomplish := true }] }, ?_⟩
  · rintro ⟨⟨x', w', hok, hrestored⟩, -⟩
    have hdiscount : x'.discount = some 1 := hrestored.discount
    rw [((wp_ok hok).1 hlost).1] at hdiscount
    cases hdiscount
  · decide +kernel

end Slam.Game
