import Slam.Game.Inventory
import Slam.Game.Items
import Slam.Lib.Assoc
import Slam.Lib.Machine

/-!
# What is worn stays on

An equipable item that is used goes to the slot after as many slots as there are equips. `remove_equip` leaves a hole
where it takes something off, and then that slot may be one that is taken: `add_equip` takes off what is worn there.

`Pack.Dressed` says that every item of a pack is in one place, in the bag or in a slot. It holds along every sequence
of `use_item` and `remove_equip`, whatever the scripts of usable items do, and with it the effect of putting an item
on is known.
-/

namespace Slam.Game

open Raising Track

variable {env : Env} {fuel : ℕ} {e : ℤ} {w w' : World}

/-! ### Bags and slots -/

/-- The items in the bag and in the slots. -/
def Pack.owned (p : Pack) : List ℤ := p.items ++ p.equips.map Prod.snd

/-- Every item is in one place, every slot has one item, and all items have been made. -/
structure Pack.Dressed (p : Pack) (next : ℤ) : Prop where
  owned : p.owned.Nodup
  slots : (p.equips.map Prod.fst).Nodup
  made : ∀ i ∈ p.owned, i < next

/-- The pack of an entity is in order. -/
def World.Dressed (w : World) (e : ℤ) : Prop := (w.pack e).Dressed w.nextItem

/-- What makes `use_item` put on an item: the entity lives and has it, the checks of `use_item` pass, and there are
fewer equips than slots. -/
structure World.Wearable (w : World) (e i : ℤ) : Prop where
  alive : (w.entityAt e).death = false
  mem : i ∈ (w.pack e).items
  allowed : w.refusesItem e i = false
  equipable : (w.itemAt i).base.category = .equipable
  room : ((w.pack e).equips.length : ℤ) < (w.entityAt e).base.maxEquipSlots

/-- The slot that `add_equip` takes if it is given none. -/
def World.nextSlot (w : World) (e : ℤ) : ℤ := (w.pack e).equips.length + 1

/-- The item is worn, what was worn is still in its slot, no item is both in the bag and in a slot, and none is
lost. -/
structure Wears (w w' : World) (e i : ℤ) : Prop where
  worn : i ∈ (w'.pack e).equips.map Prod.snd
  kept : ∀ slot j, (w.pack e).equips.lookup slot = some j → (w'.pack e).equips.lookup slot = some j
  disjoint : ∀ j ∈ (w'.pack e).equips.map Prod.snd, j ∉ (w'.pack e).items
  owned : (w'.pack e).owned.Perm (w.pack e).owned

/-- The requests. -/
inductive EquipCall
  | useItem (e i : ℤ)
  | removeEquip (e slot : ℤ)

/-- The request. -/
def EquipCall.run (env : Env) (fuel : ℕ) : EquipCall → Run Bool
  | useItem e i => Game.useItem env (perform env fuel) e i
  | removeEquip e slot => Game.removeEquip e slot

/-- A sequence of requests, of any entities. -/
def equipMachine (env : Env) (fuel : ℕ) : Machine World EquipCall where
  step w call := some (endState (call.run env fuel) w)

/-! ### Putting on and taking off -/

variable {p : Pack} {next : ℤ}

theorem Pack.Dressed.perm (h : p.Dressed next) {p' : Pack} (hperm : p'.owned.Perm p.owned)
    (hslots : (p'.equips.map Prod.fst).Nodup) : p'.Dressed next :=
  ⟨hperm.nodup_iff.2 h.owned, hslots, fun i hi => h.made i (hperm.mem_iff.1 hi)⟩

theorem Pack.owned_takeOff (h : p.Dressed next) {slot i : ℤ} (hlookup : p.equips.lookup slot = some i) :
    (p.takeOff slot i).owned.Perm p.owned := by
  have hperm := (Assoc.perm_cons_filter h.slots (Assoc.mem_of_lookup hlookup)).map Prod.snd
  rw [Pack.owned, Pack.owned, Pack.takeOff, List.append_assoc]
  exact hperm.symm.append_left p.items

theorem Pack.Dressed.takeOff (h : p.Dressed next) {slot i : ℤ} (hlookup : p.equips.lookup slot = some i) :
    (p.takeOff slot i).Dressed next :=
  h.perm (Pack.owned_takeOff h hlookup) (Assoc.nodup_filter h.slots _)

theorem Pack.owned_putOn {slot i : ℤ} (hi : i ∈ p.items) : (p.putOn slot i).owned.Perm p.owned := by
  have hperm : (p.equips.map Prod.snd ++ [i]).Perm (i :: p.equips.map Prod.snd) := List.perm_append_singleton ..
  rw [Pack.owned, Pack.owned, Pack.putOn, List.map_append]
  refine (hperm.append_left _).trans (List.perm_middle.trans ?_)
  exact (List.perm_cons_erase hi).symm.append_right _

theorem Pack.Dressed.putOn (h : p.Dressed next) {slot i : ℤ} (hi : i ∈ p.items) (hfree : p.equips.lookup slot = none) :
    (p.putOn slot i).Dressed next :=
  h.perm (Pack.owned_putOn hi) (Assoc.nodup_concat h.slots (Assoc.lookup_eq_none.1 hfree))

theorem Pack.Dressed.dropItem (h : p.Dressed next) (i : ℤ) : (p.dropItem i).Dressed next := by
  have hsub : (p.dropItem i).owned.Sublist p.owned := List.erase_sublist.append (.refl _)
  exact ⟨h.owned.sublist hsub, h.slots, fun j hj => h.made j (hsub.subset hj)⟩

/-- What is in the bag is in no slot. -/
theorem Pack.Dressed.disjoint (h : p.Dressed next) : ∀ j ∈ p.equips.map Prod.snd, j ∉ p.items := fun j hj hi =>
  (List.nodup_append.1 h.owned).2.2 j hi j hj rfl

/-! ### The track of a pack in order -/

/-- The pack of the entity stays in order. -/
def dressTrack (e : ℤ) : Track Fault World where
  ok w w' := w.Dressed e → w'.Dressed e
  error _ w w' := w.Dressed e → w'.Dressed e
  refl _ := id
  trans h h' := h' ∘ h
  trans_error h h' := h' ∘ h

namespace World.Dressed

theorem setPack (h : w.Dressed e) {d : ℤ} {p : Pack} (hp : d = e → (w.pack d).Dressed w.nextItem → p.Dressed w.nextItem) :
    (w.setPack d p).Dressed e := by
  show ((w.setPack d p).pack e).Dressed w.nextItem
  by_cases hd : e = d
  · subst hd
    rw [World.pack_setPack_self]
    exact hp rfl h
  · rw [World.pack_setPack_of_ne w hd]
    exact h

theorem tell (h : w.Dressed e) (calls : List ClientCall) : (w.tell calls).Dressed e := h

theorem setItem (h : w.Dressed e) (i : ℤ) (x : Item) : (w.setItem i x).Dressed e := h

/-- Scripts only bring new items. -/
theorem inventory {adding : Bool} (h : w.Dressed e) (hw : Inventory adding w w') : w'.Dressed e := by
  obtain ⟨more, hitems, hnodup, hmore⟩ := hw.items e
  have hperm : (w'.pack e).owned.Perm ((w.pack e).owned ++ more) := by
    rw [Pack.owned, Pack.owned, hw.equips e, hitems, List.append_assoc, List.append_assoc]
    exact List.perm_append_comm.append_left _
  refine ⟨hperm.nodup_iff.2 (List.nodup_append.2 ⟨h.owned, hnodup, ?_⟩), by rw [hw.equips e]; exact h.slots, fun i hi => ?_⟩
  · rintro i hi j hj rfl
    have hlt := h.made i hi
    have hge := (hmore i hj).1
    omega
  · rcases List.mem_append.1 (hperm.mem_iff.1 hi) with hi | hi
    · exact (h.made i hi).trans_le hw.nextItem
    · exact (hmore i hi).2

end World.Dressed

theorem dress_of_logic {α : Type} {adding : Bool} {x : Run α} (h : (logicTrack adding).Follows x) : (dressTrack e).Follows x :=
  (inventory_of_logic h).mono (fun _ _ h hw => hw.inventory h) fun _ _ _ h hw => hw.inventory h

theorem dress_removeItem {d i : ℤ} (hi : i ∈ (w.pack d).items) (number : ℤ) :
    wp (removeItem d i number) (fun _ w' => (dressTrack e).ok w w') (fun f w' => (dressTrack e).error f w w') w := by
  refine wp_removeItem hi (fun _ hw => ?_) fun _ hw => ?_
  · exact (hw.setItem i _).tell _
  · exact (World.Dressed.setPack (hw.setItem i _) fun _ hp => hp.dropItem i).tell _

theorem dress_removeEquip (d slot : ℤ) : (dressTrack e).Follows (removeEquip d slot) := by
  intro w
  refine wp_removeEquip (fun _ => id) (fun i hlookup _ hw => ?_) fun _ _ _ => id
  exact (hw.setPack fun _ hp => hp.takeOff hlookup).tell _

theorem dress_addEquip {d i slot : ℤ} (hi : i ∈ (w.pack d).items) (hcategory : (w.itemAt i).base.category = .equipable) :
    wp (addEquip d i slot) (fun _ w' => (dressTrack e).ok w w') (fun f w' => (dressTrack e).error f w w') w := by
  refine wp_addEquip hi hcategory (fun hlookup hw => ?_) (fun j hlookup _ hw => ?_) fun _ _ _ => id
  · exact (hw.setPack fun _ hp => hp.putOn hi hlookup).tell _
  · refine (hw.setPack fun _ hp => ?_).tell _
    exact (hp.takeOff hlookup).putOn (List.mem_append_left _ hi) (Pack.lookup_takeOff _ _ _)

theorem dress_callItemScript (f : Option ScriptFunc) (d i : ℤ) :
    (dressTrack e).Follows (callItemScript env (perform env fuel) f d i) := by
  cases f with
  | none => exact follows_throw fun _ => id
  | some f => exact follows_get.bind fun u => dress_of_logic (Follows.forM fun a _ => perform_follows (.inl rfl) fuel a (.inl rfl))

theorem dress_useItem (d i : ℤ) : (dressTrack e).Follows (useItem env (perform env fuel) d i) := by
  intro w
  rw [useItem, wp_bind, wp_get, wp_ite]
  refine ⟨fun _ => id, fun _ => ?_⟩
  rw [wp_ite]
  refine ⟨fun _ => id, fun hi => ?_⟩
  have hi := not_not.1 hi
  rw [wp_ite]
  refine ⟨fun _ => id, fun _ => ?_⟩
  cases hcategory : (w.itemAt i).base.category with
  | none => exact id
  | material => exact id
  | usable =>
    show wp (useUsable env (perform env fuel) d i (w.itemAt i)) _ _ w
    rw [useUsable, wp_ite]
    refine ⟨fun _ => id, fun _ => ?_⟩
    rw [wp_bind]
    refine wp_mono (dress_removeItem hi 1) (fun _ u hu => ?_) fun _ _ h => h
    refine wp_trans hu (((dress_callItemScript _ _ _).bind fun _ => ?_) u)
    exact (follows_modify fun v hv => hv.setItem i _).bind fun _ => follows_pure _
  | equipable =>
    show wp (useEquipable d i) _ _ w
    rw [useEquipable, wp_bind, wp_get, wp_ite]
    refine ⟨fun _ => id, fun _ => ?_⟩
    rw [wp_bind]
    exact wp_mono (dress_addEquip hi hcategory) (fun _ _ h => h) fun _ _ h => h

/-- **Every item is in one place**, along every sequence of requests. -/
theorem dressed_of_run {calls : List EquipCall} (h : w.Dressed e) (hrun : (equipMachine env fuel).run w calls = some w') :
    w'.Dressed e := by
  refine Machine.invariant (I := fun w => w.Dressed e) (fun u call u' hu hstep => ?_) h hrun
  cases hstep
  have hfollows : (dressTrack e).Follows (call.run env fuel) := by
    cases call with
    | useItem d i => exact dress_useItem d i
    | removeEquip d slot => exact dress_removeEquip d slot
  exact endState_of_wp (wp_mono (hfollows u) (fun _ _ hok => hok hu) fun _ _ herror => herror hu)

/-! ### Putting an item on -/

theorem useItem_of_wearable {i : ℤ} (h : w.Wearable e i) {Q : Bool → World → Prop} {E : Fault → World → Prop}
    (hadd : wp (addEquip e i (w.nextSlot e)) (fun _ => Q true) E w) :
    wp (useItem env (perform env fuel) e i) Q E w := by
  have halive : ¬ (w.entityAt e).death = true := by simp [h.alive]
  have hallowed : ¬ w.refusesItem e i = true := by simp [h.allowed]
  rw [useItem, wp_bind, wp_get, wp_ite]
  refine ⟨fun hdead => absurd hdead halive, fun _ => ?_⟩
  rw [wp_ite]
  refine ⟨fun hnot => absurd h.mem hnot, fun _ => ?_⟩
  rw [wp_ite]
  refine ⟨fun hrefused => absurd hrefused hallowed, fun _ => ?_⟩
  rw [h.equipable]
  show wp (useEquipable e i) Q E w
  rw [useEquipable, wp_bind, wp_get, wp_ite]
  refine ⟨fun hfull => absurd h.room (not_lt.2 hfull), fun _ => ?_⟩
  rw [wp_bind]
  exact hadd

/-- At a free slot nothing else moves. -/
theorem Wears.of_free {i slot : ℤ} (h : w.Dressed e) (hi : i ∈ (w.pack e).items) (hfree : (w.pack e).equips.lookup slot = none)
    (calls : List ClientCall) : Wears w ((w.setPack e ((w.pack e).putOn slot i)).tell calls) e i := by
  have hpack : ((w.setPack e ((w.pack e).putOn slot i)).tell calls).pack e = (w.pack e).putOn slot i := by
    rw [World.pack_tell, World.pack_setPack_self]
  refine ⟨?_, fun s j hlookup => ?_, ?_, ?_⟩
  · rw [hpack, Pack.putOn, List.map_append]
    exact List.mem_append_right _ (List.mem_singleton_self i)
  · rw [hpack, Pack.putOn, Assoc.lookup_concat hfree, if_neg]
    · exact hlookup
    · rintro rfl
      rw [hfree] at hlookup
      cases hlookup
  · rw [hpack]
    exact (h.putOn hi hfree).disjoint
  · rw [hpack]
    exact Pack.owned_putOn hi

/-- At a slot that is taken, what is worn there is replaced. -/
theorem not_wears_of_taken {i j slot : ℤ} (h : w.Dressed e) (hi : i ∈ (w.pack e).items)
    (htaken : (w.pack e).equips.lookup slot = some j) (calls : List ClientCall) :
    ¬ Wears w ((w.setPack e (((w.pack e).takeOff slot j).putOn slot i)).tell calls) e i := by
  intro hwears
  have hkept := hwears.kept slot j htaken
  rw [World.pack_tell, World.pack_setPack_self, Pack.putOn, Assoc.lookup_concat (Pack.lookup_takeOff _ _ _), if_pos rfl] at hkept
  -- What is worn is not in the bag.
  have hj : j ∈ (w.pack e).equips.map Prod.snd := List.mem_map_of_mem (Assoc.mem_of_lookup htaken)
  exact h.disjoint j hj (Option.some.inj hkept ▸ hi)

/-- **An item that is put on leaves what is worn exactly if the slot after the number of equips is free.** In every state
that a sequence of requests of any entities reaches from a pack in order, and for every item that can be put on there:
`use_item` returns true, the item is worn, what was worn is in its slot, bag and slots are disjoint and no item is
lost, if and only if that slot has nothing in it. -/
theorem useItem_wears_iff {w₀ : World} {calls : List EquipCall} (h : w₀.Dressed e)
    (hrun : (equipMachine env fuel).run w₀ calls = some w) {i : ℤ} (hi : w.Wearable e i) :
    (∃ w', useItem env (perform env fuel) e i w = .ok true w' ∧ Wears w w' e i) ↔
      (w.pack e).equips.lookup (w.nextSlot e) = none := by
  have hdressed := dressed_of_run h hrun
  cases hlookup : (w.pack e).equips.lookup (w.nextSlot e) with
  | none =>
    refine iff_of_true ?_ rfl
    have hwp : wp (useItem env (perform env fuel) e i) (fun rc w' => rc = true ∧ Wears w w' e i) (fun _ _ => False) w := by
      refine useItem_of_wearable hi (wp_addEquip hi.mem hi.equipable (fun hfree => ⟨rfl, .of_free hdressed hi.mem hfree _⟩) ?_ ?_)
      · exact fun j htaken => by rw [hlookup] at htaken; cases htaken
      · exact fun j htaken => by rw [hlookup] at htaken; cases htaken
    obtain ⟨rc, w', hrun, rfl, hwears⟩ := exists_ok_of_wp hwp
    exact ⟨w', hrun, hwears⟩
  | some j =>
    refine iff_of_false ?_ (by simp)
    rintro ⟨w', hrun, hwears⟩
    have hwp : wp (useItem env (perform env fuel) e i) (fun _ w' => ¬ Wears w w' e i) (fun _ _ => True) w := by
      refine useItem_of_wearable hi (wp_addEquip hi.mem hi.equipable ?_ ?_ fun _ _ _ => trivial)
      · exact fun hfree => by rw [hlookup] at hfree; cases hfree
      · exact fun j htaken _ => not_wears_of_taken hdressed hi.mem htaken _
    rw [wp_ok hrun] at hwp
    exact hwp hwears

/-- Three pieces of equipment in the bag, and nothing worn. -/
def wardrobe : World where
  entityAt _ := { pack := { items := [7, 8, 9] } }
  itemAt _ := { baseid := 1, base := { category := .equipable }, number := 1, useTimes := 0 }
  nextItem := 10

theorem wardrobe_dressed : wardrobe.Dressed 1 := ⟨by decide, by decide, by decide⟩

/-- What was put on last may be taken off and put on again. -/
theorem useItem_wears_wardrobe : ∃ w w', (equipMachine plainEnv 0).run wardrobe
      [.useItem 1 7, .useItem 1 8, .removeEquip 1 2] = some w ∧
    useItem plainEnv (perform plainEnv 0) 1 9 w = .ok true w' ∧ Wears w w' 1 9 := by
  obtain ⟨w, hrun⟩ : ∃ w, (equipMachine plainEnv 0).run wardrobe [.useItem 1 7, .useItem 1 8, .removeEquip 1 2] = some w :=
    ⟨_, rfl⟩
  have hwearable : w.Wearable 1 9 := by
    cases hrun
    constructor <;> decide
  have hfree : (w.pack 1).equips.lookup (w.nextSlot 1) = none := by
    cases hrun
    decide
  obtain ⟨w', huse, hwears⟩ := (useItem_wears_iff wardrobe_dressed hrun hwearable).2 hfree
  exact ⟨w, w', hrun, huse, hwears⟩

/-- After the first of two equips has been taken off, the third takes the place of the second. -/
theorem not_useItem_wears_wardrobe : wardrobe.Dressed 1 ∧ ∃ w, (equipMachine plainEnv 0).run wardrobe
      [.useItem 1 7, .useItem 1 8, .removeEquip 1 1] = some w ∧ w.Wearable 1 9 ∧
    ¬ ∃ w', useItem plainEnv (perform plainEnv 0) 1 9 w = .ok true w' ∧ Wears w w' 1 9 := by
  obtain ⟨w, hrun⟩ : ∃ w, (equipMachine plainEnv 0).run wardrobe [.useItem 1 7, .useItem 1 8, .removeEquip 1 1] = some w :=
    ⟨_, rfl⟩
  have hwearable : w.Wearable 1 9 := by
    cases hrun
    constructor <;> decide
  refine ⟨wardrobe_dressed, w, hrun, hwearable, ?_⟩
  rintro ⟨w', huse, hwears⟩
  have hworn : (w.pack 1).equips.lookup 2 = some 8 := by
    cases hrun
    decide
  have hreplaced : ((endState (useItem plainEnv (perform plainEnv 0) 1 9) w).pack 1).equips.lookup 2 = some 9 := by
    cases hrun
    decide
  rw [endState_of_ok huse, hwears.kept 2 8 hworn] at hreplaced
  exact absurd hreplaced (by decide)

end Slam.Game
