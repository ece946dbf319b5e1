import Slam.Game.Inventory
import Slam.Game.Growth
import Slam.Game.Event
import Slam.Game.Items
import Slam.Lib.Machine

/-!
# The limits of a pack

The row of an entity limits its item stacks, its equips and its cards. Rewards and purchases look for a
free place before they add anything, and what scripts add to a pack takes free slots only. There are two
ways past the limits: `remove_equip` puts an item back without asking whether its slot has been filled in
the meantime, and a script may add cards as it likes. `PackCall.Keeps` rules these out.
-/

namespace Slam.Game

open Raising Track

variable {env : Env} {fuel : ℕ} {o : ℤ}

/-! ### Limits -/

/-- The pack holds no more than the row allows. -/
structure Pack.Within (p : Pack) (base : EntityBase) : Prop where
  items : (p.items.length : ℤ) ≤ base.maxPackSlots
  equips : (p.equips.length : ℤ) ≤ base.maxEquipSlots
  cards : (p.cards.length : ℤ) ≤ base.maxCards

/-- The pack of an entity is within its limits. -/
def World.Within (w : World) (o : ℤ) : Prop := (w.pack o).Within (w.entityAt o).base

/-- The requests that change what is in a pack. -/
inductive PackCall
  | eventReward (e eventid index entry : ℤ)
  | purchaseCard (e eventid baseid : ℤ)
  | purchaseItem (e eventid baseid : ℤ)
  | levelupCard (e eventid c : ℤ)
  | destroyCard (e eventid c : ℤ)
  | useItem (e i : ℤ)
  | removeEquip (e slot : ℤ)

/-- The request. -/
def PackCall.run (env : Env) (fuel : ℕ) : PackCall → Run Bool
  | eventReward e eventid index entry => sceneEventReward env fuel e eventid index entry
  | purchaseCard e eventid baseid => scenePurchaseCard env e eventid baseid
  | purchaseItem e eventid baseid => scenePurchaseItem env e eventid baseid
  | levelupCard e eventid c => sceneLevelupCard env e eventid c
  | destroyCard e eventid c => sceneDestroyCard e eventid c
  | useItem e i => copyUseItem env (perform env fuel) e i
  | removeEquip e slot => copyRemoveEquip e slot

/-- The script of an item adds no card to a pack. -/
def Item.AddsNoCard (env : Env) (e i : ℤ) (item : Item) : Prop :=
  ∀ f, item.base.scriptFunc = some f → ∀ u, ∀ a ∈ env.itemScript f e i u, ∀ j baseid, a ≠ .addCard j baseid

/-- What keeps a request from leaving the limits: what is taken off finds a slot, and scripts add no
cards. -/
def PackCall.Keeps (env : Env) (w : World) : PackCall → Prop
  | useItem e i => env.AddsNoCard ∧ (w.itemAt i).AddsNoCard env e i
  | removeEquip e slot => (w.pack e).equips.lookup slot ≠ none →
      ((w.pack e).items.length : ℤ) < (w.entityAt e).base.maxPackSlots
  | _ => True

/-- A sequence of requests, of any entities. -/
def packMachine (env : Env) (fuel : ℕ) : Machine World PackCall where
  step w call := some (endState (call.run env fuel) w)

/-! ### The track of the limits -/

/-- The entity has been made, and its pack is within its limits. -/
structure World.Roomy (w : World) (o : ℤ) : Prop where
  within : w.Within o
  made : o < w.nextEntity

/-- The entity `o` keeps to its limits. -/
def roomTrack (o : ℤ) : Track Fault World where
  ok w w' := w.Roomy o → w'.Roomy o
  error _ w w' := w.Roomy o → w'.Roomy o
  refl _ := id
  trans h h' := h' ∘ h
  trans_error h h' := h' ∘ h

theorem Pack.Within.congr {p p' : Pack} {base : EntityBase} (h : p.Within base) (hitems : p'.items = p.items)
    (hequips : p'.equips = p.equips) (hcards : p'.cards = p.cards) : p'.Within base := by
  refine ⟨?_, ?_, ?_⟩
  · rw [hitems]
    exact h.items
  · rw [hequips]
    exact h.equips
  · rw [hcards]
    exact h.cards

namespace World.Roomy

variable {w w' : World}

theorem of_entityAt (h : w.Roomy o) (hentity : w'.entityAt = w.entityAt) (hnext : w'.nextEntity = w.nextEntity) :
    w'.Roomy o := by
  refine ⟨?_, hnext ▸ h.made⟩
  rw [World.Within, World.pack, hentity]
  exact h.within

/-- The packs of the other entities do not matter. -/
theorem setPack (h : w.Roomy o) {e : ℤ} {p : Pack}
    (hp : e = o → (w.pack e).Within (w.entityAt e).base → p.Within (w.entityAt e).base) : (w.setPack e p).Roomy o := by
  refine ⟨?_, h.made⟩
  by_cases ho : o = e
  · subst ho
    rw [World.Within, World.pack_setPack_self, World.setPack, World.entityAt_setEntity_self]
    exact hp rfl h.within
  · rw [World.Within, World.pack_setPack_of_ne w ho, World.setPack, World.entityAt_setEntity_of_ne w ho]
    exact h.within

/-- A pack may change apart from what is limited. -/
theorem setPack_congr (h : w.Roomy o) {e : ℤ} {p : Pack} (hitems : p.items = (w.pack e).items)
    (hequips : p.equips = (w.pack e).equips) (hcards : p.cards = (w.pack e).cards) : (w.setPack e p).Roomy o :=
  h.setPack fun _ hp => hp.congr hitems hequips hcards

theorem tell (h : w.Roomy o) (calls : List ClientCall) : (w.tell calls).Roomy o := h.of_entityAt rfl rfl

theorem inventory (h : w.Roomy o) (hw : Inventory false w w') : w'.Roomy o := by
  refine ⟨?_, hw.nextEntity ▸ h.made⟩
  have hslots := hw.slots o
  have hitems := h.within.items
  rw [World.Within, hw.base o]
  refine ⟨by omega, ?_, ?_⟩
  · rw [hw.equips o]
    exact h.within.equips
  · rw [hw.cards rfl o]
    exact h.within.cards

theorem quiet (h : w.Roomy o) (hq : Quiet w w') : w'.Roomy o := h.inventory (.of_quiet hq)

theorem grown (h : w.Roomy o) (hgrown : Grown w w') : w'.Roomy o := by
  refine ⟨?_, h.made.trans_le hgrown.nextEntity⟩
  rw [World.Within, World.pack, hgrown.entityAt o h.made]
  exact h.within

end World.Roomy

theorem room_of_quiet {α : Type} {x : Run α} (h : quietTrack.Follows x) : (roomTrack o).Follows x :=
  h.mono (fun _ _ hq hw => hw.quiet hq) fun _ _ _ hq hw => hw.quiet hq.1

theorem room_of_logic {α : Type} {x : Run α} (h : (logicTrack false).Follows x) : (roomTrack o).Follows x :=
  (inventory_of_logic h).mono (fun _ _ h hw => hw.inventory h) fun _ _ _ h hw => hw.inventory h

theorem room_modify {f : World → World} (hentity : ∀ w, (f w).entityAt = w.entityAt)
    (hnext : ∀ w, (f w).nextEntity = w.nextEntity) : (roomTrack o).Follows (modify f : Run PUnit) :=
  follows_modify fun w hw => hw.of_entityAt (hentity w) (hnext w)

theorem room_throw {α : Type} (f : Fault) : (roomTrack o).Follows (throw f : Run α) := follows_throw fun _ => id

/-! ### Cards -/

/-- A card comes to a pack with a free place. -/
theorem room_addCard {w : World} {e : ℤ} (hroom : e = o → ((w.pack e).cards.length : ℤ) < (w.entityAt e).base.maxCards)
    (baseid : ℤ) : wp (addCard env e baseid) (fun _ w' => (roomTrack o).ok w w')
      (fun f w' => (roomTrack o).error f w w') w := by
  rw [addCard, wp_bind]
  refine wp_mono (wp_cardNew baseid w) ?_ fun f w' h hw => hw.quiet h.1
  rintro c u ⟨hq, -, -⟩
  rw [wp_bind, wp_getPack, wp_bind, wp_assertion]
  refine ⟨fun _ => ?_, fun _ hw => hw.quiet hq⟩
  rw [wp_bind, wp_modifyPack, wp_bind, wp_notify_tell]
  have hcards : (u.pack e).cards = (w.pack e).cards := (congrArg Pack.cards (hq.packCore e) :)
  refine fun hw => World.Roomy.tell ?_ _
  refine World.Roomy.setPack (hw.quiet hq) ?_
  intro ho hp
  refine ⟨hp.items, hp.equips, ?_⟩
  have hroom := hroom ho
  rw [hq.base e, hcards]
  simp only [List.length_append, List.length_singleton, Nat.cast_add, Nat.cast_one]
  omega

theorem Pack.Within.dropCard {p : Pack} {base : EntityBase} (h : p.Within base) (c : ℤ) :
    (p.dropCard c).Within base := by
  refine ⟨h.items, h.equips, le_trans ?_ h.cards⟩
  exact_mod_cast List.length_erase_le

theorem room_removeCard (e c : ℤ) : (roomTrack o).Follows (removeCard e c) := by
  intro w
  rw [wp_removeCard]
  exact ⟨fun _ hw => World.Roomy.tell (World.Roomy.setPack hw fun _ hp => hp.dropCard c) _, fun _ => id⟩

/-- A card of a pack is replaced. -/
theorem room_replaceCard (e c baseid : ℤ) : (roomTrack o).Follows (do
    removeCard e c
    discard <| addCard env e baseid
    return true) := by
  intro w
  rw [wp_bind, wp_removeCard]
  refine ⟨fun hc => ?_, fun _ => id⟩
  obtain ⟨u, hu⟩ : ∃ u, u = (w.setPack e ((w.pack e).dropCard c)).tell
      [.bagRemoveCard e c] := ⟨_, rfl⟩
  rw [← hu]
  refine wp_imp (P := w.Roomy o) fun hw => ?_
  have huw : u.Roomy o := by
    rw [hu]
    exact World.Roomy.tell (hw.setPack fun _ hp => hp.dropCard c) _
  rw [wp_bind, wp_discard]
  refine wp_mono (room_addCard (fun ho => ?_) baseid) (fun _ _ h => h huw) fun _ _ h => h huw
  have hcards : (u.pack e).cards = (w.pack e).cards.erase c := by
    rw [hu, World.pack_tell, World.pack_setPack_self, Pack.dropCard]
  have hbase : (u.entityAt e).base = (w.entityAt e).base := by
    rw [hu]
    simp [World.tell, World.setPack]
  have hlength := List.length_erase_add_one hc
  have hlimit := hw.within.cards
  rw [← ho] at hlimit
  rw [hcards, hbase]
  omega

/-! ### Items and equips -/

theorem Pack.Within.dropItem {p : Pack} {base : EntityBase} (h : p.Within base) (i : ℤ) :
    (p.dropItem i).Within base := by
  refine ⟨le_trans ?_ h.items, h.equips, h.cards⟩
  exact_mod_cast List.length_erase_le

theorem length_filter_of_lookup {l : List (ℤ × ℤ)} {slot i : ℤ} (h : l.lookup slot = some i) :
    (l.filter fun x => x.1 ≠ slot).length < l.length := by
  refine List.length_filter_lt_length_iff_exists.2 ⟨(slot, i), Assoc.mem_of_lookup h, ?_⟩
  simp

theorem room_setItem {w : World} (h : w.Roomy o) (i : ℤ) (x : Item) : (w.setItem i x).Roomy o := h.of_entityAt rfl rfl

theorem room_removeItem {w : World} {e i : ℤ} (hi : i ∈ (w.pack e).items) (number : ℤ) :
    wp (removeItem e i number) (fun _ w' => (roomTrack o).ok w w') (fun f w' => (roomTrack o).error f w w') w := by
  refine wp_removeItem hi (fun _ hw => ?_) fun _ hw => ?_
  · exact (room_setItem hw i _).tell _
  · exact World.Roomy.tell (World.Roomy.setPack (room_setItem hw i _) fun _ hp => hp.dropItem i) _

theorem room_removeEquip {w : World} {e slot : ℤ} (hroom : (w.pack e).equips.lookup slot ≠ none →
      ((w.pack e).items.length : ℤ) < (w.entityAt e).base.maxPackSlots) :
    wp (removeEquip e slot) (fun _ w' => (roomTrack o).ok w w') (fun f w' => (roomTrack o).error f w w') w := by
  refine wp_removeEquip (fun _ => id) (fun i hlookup _ hw => ?_) fun _ _ _ => id
  refine World.Roomy.tell (World.Roomy.setPack hw ?_) _
  intro _ hp
  refine ⟨?_, ?_, hp.cards⟩
  · have hroom := hroom (by rw [hlookup]; exact nofun)
    simp only [Pack.takeOff, List.length_append, List.length_singleton, Nat.cast_add, Nat.cast_one]
    omega
  · refine le_trans ?_ hp.equips
    exact_mod_cast (length_filter_of_lookup hlookup).le

/-- What is taken off at the slot goes to the place of what is put on. -/
theorem room_addEquip {w : World} {e i slot : ℤ} (hi : i ∈ (w.pack e).items)
    (hcategory : (w.itemAt i).base.category = .equipable)
    (hroom : ((w.pack e).equips.length : ℤ) < (w.entityAt e).base.maxEquipSlots) :
    wp (addEquip e i slot) (fun _ w' => (roomTrack o).ok w w') (fun f w' => (roomTrack o).error f w w') w := by
  refine wp_addEquip hi hcategory (fun _ hw => ?_) (fun j hlookup _ hw => ?_) fun _ _ _ => id
  · refine World.Roomy.tell (World.Roomy.setPack hw ?_) _
    intro _ hp
    refine ⟨le_trans ?_ hp.items, ?_, hp.cards⟩
    · exact_mod_cast List.length_erase_le
    · simp only [Pack.putOn, List.length_append, List.length_singleton, Nat.cast_add, Nat.cast_one]
      omega
  · have hless := length_filter_of_lookup hlookup
    refine World.Roomy.tell (World.Roomy.setPack hw ?_) _
    intro _ hp
    refine ⟨?_, ?_, hp.cards⟩
    · have hlength := List.length_erase_add_one (List.mem_append_left [j] hi)
      have hitems := hp.items
      simp only [List.length_append, List.length_singleton] at hlength
      simp only [Pack.takeOff, Pack.putOn]
      omega
    · simp only [Pack.takeOff, Pack.putOn, List.length_append, List.length_singleton, Nat.cast_add, Nat.cast_one]
      omega

theorem room_callItemScript (henv : env.AddsNoCard) {e i : ℤ} {item : Item} (hitem : item.AddsNoCard env e i) :
    (roomTrack o).Follows (callItemScript env (perform env fuel) item.base.scriptFunc e i) := by
  cases hf : item.base.scriptFunc with
  | none => exact room_throw _
  | some f =>
    refine follows_get.bind fun u => room_of_logic (Follows.forM fun a ha => ?_)
    exact perform_follows (.inr henv) fuel a (.inr (hitem f hf u a ha))

theorem room_useItem (henv : env.AddsNoCard) {w : World} {e i : ℤ} (hitem : (w.itemAt i).AddsNoCard env e i) :
    wp (useItem env (perform env fuel) e i) (fun _ w' => (roomTrack o).ok w w')
      (fun f w' => (roomTrack o).error f w w') w := by
  rw [useItem, wp_bind, wp_get, wp_ite]
  refine ⟨fun _ => id, fun _ => ?_⟩
  rw [wp_ite]
  refine ⟨fun _ => id, fun hi => ?_⟩
  have hi := not_not.1 hi
  rw [wp_ite]
  refine ⟨fun _ => id, fun _ => ?_⟩
  cases hcategory : (w.itemAt i).base.category with
  | none => exact id
  | material => exact id
  | usable =>
    show wp (useUsable env (perform env fuel) e i (w.itemAt i)) _ _ w
    rw [useUsable, wp_ite]
    refine ⟨fun _ => id, fun _ => ?_⟩
    rw [wp_bind]
    refine wp_mono (room_removeItem hi 1) (fun _ u hu => ?_) fun _ _ h => h
    refine wp_trans hu (((room_callItemScript henv hitem).bind fun _ => ?_) u)
    refine Follows.bind (room_modify ?_ ?_) fun _ => follows_pure _
    · intro u
      rfl
    · intro u
      rfl
  | equipable =>
    show wp (useEquipable e i) _ _ w
    rw [useEquipable, wp_bind, wp_get, wp_ite]
    refine ⟨fun _ => id, fun hroom => ?_⟩
    rw [wp_bind]
    exact wp_mono (room_addEquip hi hcategory (not_le.1 hroom)) (fun _ _ h => h) fun _ _ h => h

/-! ### Requests at an event -/

theorem room_modifyEvent (f : Event → Event) : (roomTrack o).Follows (modifyEvent f) :=
  room_modify (fun _ => rfl) fun _ => rfl

theorem room_touchEvent {α : Type} (e eventid : ℤ) (category : EventCategory) (f : Func) (args : Content → Option α) :
    (roomTrack o).Follows (touchEvent e eventid category f args) := by
  intro w
  refine wp_touchEvent (fun _ => ⟨id, id⟩) fun _ _ hw => ?_
  exact hw.of_entityAt rfl rfl

theorem room_atEvent {α : Type} {request : α → Run Bool} (h : ∀ a, (roomTrack o).Follows (request a)) (e eventid : ℤ)
    (category : EventCategory) (f : Func) (args : Content → Option α) :
    (roomTrack o).Follows (atEvent e eventid category f args request) := by
  refine (room_touchEvent e eventid category f args).bind fun a => ?_
  cases a with
  | none => exact follows_pure _
  | some a => exact h a

theorem room_dispatchShop (shop : Shop) : (roomTrack o).Follows (dispatchShop env shop) := by
  refine (room_modifyEvent _).bind fun _ => (Follows.forM fun baseid _ => ?_).bind fun _ => Follows.forM fun baseid _ => ?_
  · exact Follows.ite (fun _ => room_throw _) fun _ => follows_pure _
  · exact Follows.ite (fun _ => room_throw _) fun _ => follows_pure _

theorem room_purchaseCard (e baseid : ℤ) (shop : Shop) : (roomTrack o).Follows (purchaseCard env e baseid shop) := by
  intro w
  rw [purchaseCard, wp_bind, wp_get, wp_ite]
  refine ⟨fun _ => id, fun _ => ?_⟩
  rw [wp_ite]
  refine ⟨fun _ => id, fun _ => ?_⟩
  split
  · exact id
  · rename_i price _
    rw [wp_ite]
    refine ⟨fun _ => id, fun _ => ?_⟩
    rw [wp_ite]
    refine ⟨fun _ => id, fun hroom => ?_⟩
    rw [wp_bind]
    refine wp_mono (quiet_addGold e (-price) w) (fun _ u hq => ?_) fun _ _ h hw => hw.quiet h.1
    have hcards : (u.pack e).cards = (w.pack e).cards := (congrArg Pack.cards (hq.packCore e) :)
    refine wp_trans (T := roomTrack o) (fun hw => hw.quiet hq) ?_
    rw [wp_bind, wp_discard]
    refine wp_mono (room_addCard (fun _ => ?_) baseid) (fun _ _ h => h) fun _ _ h => h
    rw [hcards, hq.base e]
    exact not_le.1 hroom

theorem room_purchaseItem (e : ℤ) (baseid : Option ℤ) (shop : Shop) :
    (roomTrack o).Follows (purchaseItem env e baseid shop) := by
  refine follows_get.bind fun w => Follows.ite (fun _ => follows_pure _) fun _ => ?_
  split
  · exact follows_pure _
  · exact room_throw _
  · refine Follows.ite (fun _ => follows_pure _) fun _ => ?_
    split
    · exact follows_pure _
    · refine Follows.ite (fun _ => follows_pure _) fun _ => Follows.ite (fun _ => follows_pure _) fun _ => ?_
      refine (room_of_quiet (quiet_addGold _ _)).bind fun _ => ?_
      exact (room_of_quiet (quiet_addItem _ _ _)).bind fun _ => follows_pure _

theorem room_destroyCard (e c : ℤ) (args : Price) : (roomTrack o).Follows (destroyCard e c args) := by
  refine follows_get.bind fun w => Follows.ite (fun _ => follows_pure _) fun _ => ?_
  split
  · exact follows_pure _
  · refine Follows.ite (fun _ => follows_pure _) fun _ => Follows.ite (fun _ => follows_pure _) fun _ => ?_
    refine (room_of_quiet (quiet_addGold _ _)).bind fun _ => ?_
    exact (room_removeCard e c).bind fun _ => follows_pure _

theorem room_levelupCard (e c : ℤ) (args : Price) : (roomTrack o).Follows (levelupCard env e c args) := by
  refine follows_get.bind fun w => Follows.ite (fun _ => follows_pure _) fun _ => ?_
  split
  · exact follows_pure _
  · refine Follows.ite (fun _ => follows_pure _) fun _ => Follows.ite (fun _ => follows_pure _) fun _ => ?_
    split
    · exact follows_pure _
    · refine Follows.ite (fun _ => follows_pure _) fun _ => Follows.ite (fun _ => follows_pure _) fun _ => ?_
      exact room_replaceCard e c _

theorem room_rewardCards (e : ℤ) (cards : List ℤ) (entry : ℤ) : (roomTrack o).Follows (rewardCards env e cards entry) := by
  intro w
  rw [rewardCards]
  split
  · exact id
  · rename_i baseid _
    rw [wp_ite]
    refine ⟨fun _ => id, fun _ => ?_⟩
    rw [wp_bind, wp_get, wp_ite]
    refine ⟨fun _ => id, fun hroom => ?_⟩
    rw [wp_bind, wp_discard]
    exact wp_mono (room_addCard (fun _ => not_le.1 hroom) baseid) (fun _ _ h => h) fun _ _ h => h

theorem room_rewardItemsLoop (e : ℤ) (entries : List (ℤ × ℤ)) :
    (roomTrack o).Follows (rewardItemsLoop env e entries) := by
  induction entries with
  | nil => exact follows_pure _
  | cons x entries ih =>
    refine Follows.ite (fun _ => follows_pure _) fun _ => follows_get.bind fun w => ?_
    exact Follows.ite (fun _ => follows_pure _) fun _ => (room_of_quiet (quiet_addItem _ _ _)).bind fun _ => ih

theorem room_rewardItems (e : ℤ) (items : List ItemsEntry) (entry : ℤ) :
    (roomTrack o).Follows (rewardItems env e items entry) := by
  rw [rewardItems]
  split
  · exact follows_pure _
  · exact follows_pure _
  · exact Follows.ite (fun _ => follows_pure _) fun _ => room_rewardItemsLoop e _

theorem room_rewardPuppets (e : ℤ) (puppets : List ℤ) (entry : ℤ) :
    (roomTrack o).Follows (rewardPuppets env fuel e puppets entry) := by
  rw [rewardPuppets]
  split
  · exact follows_pure _
  · refine Follows.ite (fun _ => follows_pure _) fun _ => follows_get.bind fun w => ?_
    refine Follows.ite (fun _ => follows_pure _) fun _ => ?_
    refine Follows.bind (fun u => ?_) fun _ => follows_pure _
    rw [wp_discard, addPuppet, wp_bind, wp_get, wp_bind]
    refine wp_mono (wp_entityNew _ _ fuel _ _ u) ?_ fun _ _ hgrown hu => hu.grown hgrown
    rintro t v ⟨-, hgrown, -⟩
    rw [wp_bind, wp_getPack, wp_bind, wp_assertion]
    refine ⟨fun _ => ?_, fun _ hu => hu.grown hgrown⟩
    rw [wp_bind, wp_modifyPack, wp_bind, wp_notify_tell]
    refine fun hu => World.Roomy.tell ?_ _
    refine World.Roomy.setPack_congr (hu.grown hgrown) ?_ ?_ ?_ <;> rfl

theorem room_eventReward (e : ℤ) (rewards : List Reward) (index entry : ℤ) :
    (roomTrack o).Follows (eventReward env fuel e rewards index entry) := by
  refine follows_get.bind fun w => Follows.ite (fun _ => follows_pure _) fun _ => ?_
  split
  · exact follows_pure _
  · exact room_rewardCards e _ _
  · exact room_rewardItems e _ _
  · exact (room_of_quiet (quiet_addGold _ _)).bind fun _ => follows_pure _
  · exact room_rewardPuppets e _ _
  · exact follows_pure _

theorem room_removeReward (rewards : List Reward) (index : ℤ) :
    (roomTrack o).Follows (removeReward env rewards index) := by
  refine (Follows.ite (fun _ => follows_pure _) fun _ => room_throw _).bind fun _ => ?_
  refine (room_modifyEvent _).bind fun _ => ?_
  exact Follows.ite (fun _ => room_modifyEvent _) fun _ => follows_pure _

theorem room_reported {purchase : Shop → Run Bool} (h : ∀ shop, (roomTrack o).Follows (purchase shop)) (shop : Shop) :
    (roomTrack o).Follows (reported env purchase shop) := by
  refine (h shop).bind fun rc => ?_
  exact Follows.ite (fun _ => (room_dispatchShop shop).bind fun _ => follows_pure _) fun _ => follows_pure _

/-! ### Every request -/

theorem PackCall.room {w : World} {call : PackCall} (h : call.Keeps env w) :
    wp (call.run env fuel) (fun _ w' => (roomTrack o).ok w w') (fun f w' => (roomTrack o).error f w w') w := by
  cases call with
  | eventReward e eventid index entry =>
    refine room_atEvent (fun rewards => (room_eventReward e rewards index entry).bind fun rc => ?_) _ _ _ _ _ w
    exact Follows.ite (fun _ => (room_removeReward rewards index).bind fun _ => follows_pure _) fun _ => follows_pure _
  | purchaseCard e eventid baseid => exact room_atEvent (room_reported (room_purchaseCard e baseid)) _ _ _ _ _ w
  | purchaseItem e eventid baseid => exact room_atEvent (room_reported (room_purchaseItem e none)) _ _ _ _ _ w
  | levelupCard e eventid c => exact room_atEvent (room_levelupCard e c) _ _ _ _ _ w
  | destroyCard e eventid c => exact room_atEvent (room_destroyCard e c) _ _ _ _ _ w
  | useItem e i =>
    show wp (copyUseItem env (perform env fuel) e i) _ _ w
    rw [copyUseItem, wp_bind, wp_get]
    split
    · exact id
    · rw [wp_ite]
      exact ⟨fun _ => id, fun _ => room_useItem h.1 h.2⟩
  | removeEquip e slot =>
    show wp (copyRemoveEquip e slot) _ _ w
    rw [copyRemoveEquip, wp_bind, wp_get]
    split
    · exact id
    · rw [wp_ite]
      refine ⟨fun _ => id, fun _ => ?_⟩
      rw [wp_ite]
      exact ⟨fun _ => id, fun _ => room_removeEquip h⟩

/-- **Packs stay within their limits** along every sequence of requests of any entities, each of which
keeps to them where it is made. -/
theorem pack_within_of_keeps {w w' : World} {calls : List PackCall} (hmade : o < w.nextEntity) (h : w.Within o)
    (hkeeps : (packMachine env fuel).Guarded (fun w call => call.Keeps env w) w calls)
    (hrun : (packMachine env fuel).run w calls = some w') : w'.Within o := by
  have hroomy : w'.Roomy o := by
    refine Machine.invariant_of_guarded (I := fun w => w.Roomy o) (fun u call u' hu hcall hstep => ?_) ⟨h, hmade⟩ hkeeps hrun
    cases hstep
    exact endState_of_wp (wp_mono (PackCall.room hcall) (fun _ _ hok => hok hu) fun _ _ herror => herror hu)
  exact hroomy.within

/-- A pack with one slot, which is taken by a piece of equipment, at an event that offers an item. -/
def oneSlot : World where
  entityAt _ := { base := { maxPackSlots := 1 }, pack := { items := [7] } }
  itemAt _ := { baseid := 1, base := { category := .equipable }, number := 1, useTimes := 0 }
  nextEntity := 2
  nextItem := 8
  scene := some {
    members := [1]
    triggerEvent := some {
      id := 3, category := .reward, content := some { reward := some [{ items := some [.table [(9, 1)]] }] } } }

theorem oneSlot_within : oneSlot.Within 1 := by constructor <;> decide

theorem pack_within_of_keeps_oneSlot :
    ∃ w', (packMachine plainEnv 0).run oneSlot [.useItem 1 7, .removeEquip 1 1] = some w' ∧ w'.Within 1 := by
  obtain ⟨w', hrun⟩ : ∃ w', (packMachine plainEnv 0).run oneSlot [.useItem 1 7, .removeEquip 1 1] = some w' :=
    ⟨_, rfl⟩
  refine ⟨w', hrun, pack_within_of_keeps (by decide) oneSlot_within ?_ hrun⟩
  refine ⟨⟨fun _ _ _ a ha => ?_, fun _ _ _ a ha => ?_⟩, fun u hu => ?_⟩
  · cases ha
  · cases ha
  · cases hu
    exact ⟨fun _ => by decide, fun _ _ => trivial⟩

/-- **They do not in general**: what has been taken from its slot to be put on comes back after the slot
has been filled. -/
theorem removeEquip_overfills : oneSlot.Within 1 ∧
    ∃ w', (packMachine plainEnv 0).run oneSlot [.useItem 1 7, .eventReward 1 3 1 1, .removeEquip 1 1] = some w' ∧
      ¬ w'.Within 1 := by
  obtain ⟨w', hrun⟩ : ∃ w', (packMachine plainEnv 0).run oneSlot
      [.useItem 1 7, .eventReward 1 3 1 1, .removeEquip 1 1] = some w' := ⟨_, rfl⟩
  refine ⟨oneSlot_within, w', hrun, fun h => ?_⟩
  have hfull : ((packMachine plainEnv 0).run oneSlot [.useItem 1 7, .eventReward 1 3 1 1, .removeEquip 1 1]).map
      (fun w => ((w.pack 1).items.length, (w.entityAt 1).base.maxPackSlots)) = some (2, 1) := by decide +kernel
  rw [hrun, Option.map_some, Option.some.injEq, Prod.mk.injEq] at hfull
  have hitems := h.items
  rw [hfull.1, hfull.2] at hitems
  exact absurd hitems (by decide)

end Slam.Game
