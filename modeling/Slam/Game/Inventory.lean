import Slam.Game.Follow.Settle

/-!
# What scripts may do to the inventory of an entity

The steps of the logic change stacks, numbers and deaths. Of what an entity owns they change the items of
its pack, and its cards if scripts add some: `Inventory` says what stays, whatever the scripts do.
-/

namespace Slam.Game

open Raising Track

variable {adding : Bool}

/-- What the steps of the logic do to the inventories. -/
structure Inventory (adding : Bool) (w w' : World) : Prop where
  base : ∀ e, (w'.entityAt e).base = (w.entityAt e).base
  backup : ∀ e, (w'.entityAt e).backup = (w.entityAt e).backup
  span : ∀ e, (w'.pack e).span = (w.pack e).span
  equips : ∀ e, (w'.pack e).equips = (w.pack e).equips
  cards : adding = false → ∀ e, (w'.pack e).cards = (w.pack e).cards
  slots : ∀ e, ((w'.pack e).items.length : ℤ) ≤ max ((w.pack e).items.length : ℤ) (w.entityAt e).base.maxPackSlots
  unowned : ∀ i < w.nextItem, w.Unowned i → w'.Unowned i ∧ w'.itemAt i = w.itemAt i
  items : ∀ e, Appended w.nextItem w'.nextItem (w.pack e).items (w'.pack e).items
  nextItem : w.nextItem ≤ w'.nextItem
  nextEntity : w'.nextEntity = w.nextEntity

namespace Inventory

variable {w w' w'' : World}

theorem refl (adding : Bool) (w : World) : Inventory adding w w where
  base _ := rfl
  backup _ := rfl
  span _ := rfl
  equips _ := rfl
  cards _ _ := rfl
  slots _ := le_max_left ..
  unowned _ _ h := ⟨h, rfl⟩
  items _ := .refl ..
  nextItem := le_refl _
  nextEntity := rfl

theorem trans (h : Inventory adding w w') (h' : Inventory adding w' w'') : Inventory adding w w'' where
  base e := (h'.base e).trans (h.base e)
  backup e := (h'.backup e).trans (h.backup e)
  span e := (h'.span e).trans (h.span e)
  equips e := (h'.equips e).trans (h.equips e)
  cards hadding e := (h'.cards hadding e).trans (h.cards hadding e)
  slots e := by
    have hslots := h.slots e
    have hslots' := h'.slots e
    rw [h.base e] at hslots'
    omega
  unowned i hi hw := by
    obtain ⟨hw', hsame⟩ := h.unowned i hi hw
    obtain ⟨hw'', hsame'⟩ := h'.unowned i (hi.trans_le h.nextItem) hw'
    exact ⟨hw'', hsame'.trans hsame⟩
  items e := (h.items e).trans (h'.items e) h.nextItem h'.nextItem
  nextItem := h.nextItem.trans h'.nextItem
  nextEntity := h'.nextEntity.trans h.nextEntity

theorem of_quiet (h : Quiet w w') : Inventory adding w w' where
  base := h.base
  backup := h.backup
  span e := (congrArg Pack.span (h.packCore e) :)
  equips e := (congrArg Pack.equips (h.packCore e) :)
  cards _ e := (congrArg Pack.cards (h.packCore e) :)
  slots := h.slots
  unowned := h.unowned
  items := h.items
  nextItem := h.nextItem
  nextEntity := (congrArg World.nextEntity h.frame :)

/-- Writing an entity without what the inventory consists of. -/
theorem setEntity {e : ℤ} {x : Entity} (hbase : x.base = (w.entityAt e).base)
    (hbackup : x.backup = (w.entityAt e).backup) (hspan : x.pack.span = (w.pack e).span)
    (hequips : x.pack.equips = (w.pack e).equips) (hcards : adding = false → x.pack.cards = (w.pack e).cards)
    (hitems : x.pack.items = (w.pack e).items) : Inventory adding w (w.setEntity e x) := by
  have hself : (w.setEntity e x).entityAt e = x := World.entityAt_setEntity_self ..
  have hother {i : ℤ} (hi : i ≠ e) : (w.setEntity e x).entityAt i = w.entityAt i := w.entityAt_setEntity_of_ne hi x
  -- Every field is about one entity: it is the one that is written or another one.
  have hall {P : ℤ → Prop} (he : P e) (hne : ∀ i, i ≠ e → P i) (i : ℤ) : P i := by
    by_cases hi : i = e
    · rw [hi]
      exact he
    · exact hne i hi
  have hkept (i : ℤ) := w.items_setEntity hitems i
  refine ⟨?_, ?_, ?_, ?_, fun hadding => ?_, fun i => ?_, fun j _ hj => ⟨fun i => ?_, rfl⟩, fun i => ?_, le_refl _, rfl⟩
  · exact hall (by rw [hself, hbase]) fun i hi => by rw [hother hi]
  · exact hall (by rw [hself, hbackup]) fun i hi => by rw [hother hi]
  · exact hall (by rw [World.pack, hself, hspan]) fun i hi => by rw [World.pack, hother hi, World.pack]
  · exact hall (by rw [World.pack, hself, hequips]) fun i hi => by rw [World.pack, hother hi, World.pack]
  · exact hall (by rw [World.pack, hself, hcards hadding]) fun i hi => by rw [World.pack, hother hi, World.pack]
  · rw [hkept]
    exact le_max_left ..
  · rw [hkept]
    exact hj i
  · rw [hkept]
    exact .refl ..

/-- Writing a pack without what the inventory consists of. -/
theorem setPack {e : ℤ} {p : Pack} (hspan : p.span = (w.pack e).span) (hequips : p.equips = (w.pack e).equips)
    (hcards : adding = false → p.cards = (w.pack e).cards) (hitems : p.items = (w.pack e).items) :
    Inventory adding w (w.setPack e p) :=
  setEntity rfl rfl hspan hequips hcards hitems

/-- What is not in the heap does not matter. -/
theorem of_heap (hentity : w'.entityAt = w.entityAt) (hitem : w'.itemAt = w.itemAt) (hnextItem : w'.nextItem = w.nextItem)
    (hnextEntity : w'.nextEntity = w.nextEntity) : Inventory adding w w' := by
  have hpack (e : ℤ) : w'.pack e = w.pack e := by rw [World.pack, hentity, World.pack]
  refine ⟨fun e => by rw [hentity], fun e => by rw [hentity], fun e => by rw [hpack], fun e => by rw [hpack],
    fun _ e => by rw [hpack], fun e => ?_, fun i _ hi => ⟨fun e => ?_, by rw [hitem]⟩, fun e => ?_, hnextItem.ge, hnextEntity⟩
  · rw [hpack]
    exact le_max_left ..
  · rw [hpack]
    exact hi e
  · rw [hpack]
    exact .refl ..

theorem markDead (w : World) (e : ℤ) : Inventory adding w (w.markDead e) := by
  have hdead : Inventory adding w (w.setEntity e { w.entityAt e with death := true }) :=
    setEntity rfl rfl rfl rfl (fun _ => rfl) rfl
  exact hdead.trans (of_heap rfl rfl rfl rfl)

theorem step (hstep : Step adding w w') : Inventory adding w w' := by
  have htouch (e : ℤ) : Inventory adding w (w.touch e) := of_heap rfl rfl rfl rfl
  cases hstep with
  | quiet hq => exact of_quiet hq
  | @shift e c s t =>
    refine (htouch e).trans (setPack ?_ ?_ (fun _ => ?_) ?_) <;> cases s <;> cases t <;> rfl
  | @newone w₁ e hq =>
    have htouch' : Inventory adding w₁ (w₁.touch e) := of_heap rfl rfl rfl rfl
    exact (of_quiet hq).trans (htouch'.trans (setPack rfl rfl (fun _ => rfl) rfl))
  | @addCard w₁ e hadding hq =>
    refine (of_quiet hq).trans (setPack rfl rfl (fun hnot => ?_) rfl)
    rw [hadding] at hnot
    cases hnot
  | @leave e => exact (htouch e).trans (setPack rfl rfl (fun _ => rfl) rfl)
  | @file e c s => refine (htouch e).trans (setPack ?_ ?_ (fun _ => ?_) ?_) <;> cases s <;> rfl
  | destroy => exact setPack rfl rfl (fun _ => rfl) rfl
  | lock => exact of_heap rfl rfl rfl rfl
  | unlock => exact of_heap rfl rfl rfl rfl
  | @die e =>
    rw [World.die]
    split
    · exact markDead w e
    · split
      · exact markDead w e
      · exact (markDead w e).trans (of_heap rfl rfl rfl rfl)
  | pass => exact of_heap rfl rfl rfl rfl

theorem moves (hmoves : Moves adding w w') : Inventory adding w w' := by
  induction hmoves with
  | refl => exact refl adding w
  | tail _ hstep ih => exact ih.trans (step hstep)

theorem fail {f : Fault} (hfail : Fail f w w') : Inventory adding w w' := by
  cases hfail with
  | plain => exact refl adding w
  | stack _ _ hq => exact of_quiet hq
  | late => exact markDead w _
  | undone => exact markDead w _
  | noScene => exact markDead w _
  | noTurn _ _ _ hw =>
    obtain ⟨total, i, e, rfl⟩ := hw
    exact of_heap rfl rfl rfl rfl

end Inventory

/-- The track of the inventories. -/
def inventoryTrack (adding : Bool) : Track Fault World where
  ok := Inventory adding
  error _ := Inventory adding
  refl := Inventory.refl adding
  trans := Inventory.trans
  trans_error := Inventory.trans

/-- What the functions of a match do to the inventories, whether they return or raise. -/
theorem inventory_of_logic {α : Type} {x : Run α} (h : (logicTrack adding).Follows x) :
    (inventoryTrack adding).Follows x := by
  refine h.mono (fun _ _ hok => .moves hok.1) ?_
  rintro f w w' ⟨u, hmoves, -, hfail⟩
  exact (Inventory.moves hmoves).trans (.fail hfail)

end Slam.Game
