import Slam.Game.Pack
import Slam.Lib.Assoc

/-!
# `entity.lua` and `copy.lua`: using an item and taking off equipment

`use_item` does something else for each category of items: one that is usable is used up and its script
is called, one that is equipable is put on, and nothing happens to material. Outside a match a client may
also ask to take off what is in a slot of the equipment.
-/

namespace Slam.Game

open Raising

section Scripts

variable (env : Env) (act : Act → Run Unit)

/-- A call of the script of an item. -/
def callItemScript (f : Option ScriptFunc) (e i : ℤ) : Run Unit := do
  match f with
  | none => throw (.assertion .useItem)
  | some f => (env.itemScript f e i (← get)).forM act

/-- The part of `use_item` for a usable item. -/
def useUsable (e i : ℤ) (item : Item) : Run Bool := do
  if item.number < 1 then return false
  removeItem e i 1
  callItemScript env act item.base.scriptFunc e i
  modify fun w => w.setItem i { w.itemAt i with useTimes := (w.itemAt i).useTimes + 1 }
  return true

/-- The part of `use_item` for an equipable item: `add_equip` without a slot takes the one after as many
slots as there are equips. -/
def useEquipable (e i : ℤ) : Run Bool := do
  let w ← get
  if (w.entityAt e).base.maxEquipSlots ≤ (w.pack e).equips.length then return false
  addEquip e i ((w.pack e).equips.length + 1)
  return true

/-- The checks of the span and of the use times in `use_item`. -/
def World.refusesItem (w : World) (e i : ℤ) : Bool :=
  let item := w.itemAt i
  (item.base.span ≠ .none ∧ item.base.span ≠ (w.pack e).span) ∨
    (item.base.consumableTimes ≠ 0 ∧ item.base.consumableTimes ≤ item.useTimes)

/-- `Entity:use_item`. An item that is not in the pack is indexed all the same. -/
def useItem (e i : ℤ) : Run Bool := do
  let w ← get
  if (w.entityAt e).death then return false
  if i ∉ (w.pack e).items then throw .indexNil
  if w.refusesItem e i then return false
  match (w.itemAt i).base.category with
  | .usable => useUsable env act e i (w.itemAt i)
  | .equipable => useEquipable e i
  | .material => return true
  | .none => return false

/-- `Copy:use_item` and `Scene:use_item`. -/
def copyUseItem (e i : ℤ) : Run Bool := do
  match (← get).scene with
  | none => return false
  | some s =>
    if e ∉ s.members then return false
    useItem env act e i

/-- `Copy:remove_equip` and `Scene:remove_equip`. -/
def copyRemoveEquip (e slot : ℤ) : Run Bool := do
  match (← get).scene with
  | none => return false
  | some s =>
    if s.sceneMatch.isSome then return false
    if e ∉ s.members then return false
    removeEquip e slot

end Scripts

/-! ### What they do to a pack -/

/-- What is in a slot of the equipment is put back. -/
def Pack.takeOff (p : Pack) (slot i : ℤ) : Pack :=
  { p with items := p.items ++ [i], equips := p.equips.filter fun x => x.1 ≠ slot }

theorem Pack.lookup_takeOff (p : Pack) (slot i : ℤ) : (p.takeOff slot i).equips.lookup slot = none :=
  Assoc.lookup_eq_none.2 Assoc.notMem_filter

/-- An item is put on. -/
def Pack.putOn (p : Pack) (slot i : ℤ) : Pack :=
  { p with items := p.items.erase i, equips := p.equips ++ [(slot, i)] }

/-- The pack without an item. -/
def Pack.dropItem (p : Pack) (i : ℤ) : Pack := { p with items := p.items.erase i }

/-- The pack without a card. -/
def Pack.dropCard (p : Pack) (c : ℤ) : Pack := { p with cards := p.cards.erase c }

/-- The number of an item is written. -/
def World.setNumber (w : World) (i number : ℤ) : World :=
  w.setItem i { w.itemAt i with number := (w.itemAt i).base.clampNumber number }

section Rules

variable {Q : Unit → World → Prop} {E : Fault → World → Prop} {w : World} {e i c slot : ℤ}

theorem wp_removeCard : wp (removeCard e c) Q E w ↔
    (c ∈ (w.pack e).cards → Q () ((w.setPack e ((w.pack e).dropCard c)).tell [.bagRemoveCard e c])) ∧
    (c ∉ (w.pack e).cards → E (.assertion .removeCard) w) := by
  simp only [removeCard, wp_bind, wp_getPack, wp_assertion, wp_modifyPack, wp_notify_tell]
  rfl

theorem wp_removeItem {number : ℤ} (hi : i ∈ (w.pack e).items)
    (hsome : 0 < (w.itemAt i).base.clampNumber ((w.itemAt i).number - number) →
      Q () ((w.setNumber i ((w.itemAt i).number - number)).tell
        [.bagSetItemNumber e i ((w.itemAt i).base.clampNumber ((w.itemAt i).number - number))]))
    (hnone : ¬ 0 < (w.itemAt i).base.clampNumber ((w.itemAt i).number - number) →
      Q () (((w.setNumber i ((w.itemAt i).number - number)).setPack e ((w.pack e).dropItem i)).tell
        [.bagRemoveItem e i])) :
    wp (removeItem e i number) Q E w := by
  rw [removeItem, wp_bind, wp_getPack, wp_bind, wp_assertion]
  refine ⟨fun _ => ?_, fun hnot => absurd hi hnot⟩
  rw [wp_bind, wp_get, wp_bind]
  show wp _ _ _ (w.setNumber i ((w.itemAt i).number - number))
  have hnow : ((w.setNumber i ((w.itemAt i).number - number)).itemAt i).number =
      (w.itemAt i).base.clampNumber ((w.itemAt i).number - number) := by
    simp [World.setNumber, World.setItem]
  rw [wp_bind, wp_get, hnow, wp_ite]
  exact ⟨hsome, hnone⟩

theorem wp_removeEquip {Q : Bool → World → Prop} (hfree : (w.pack e).equips.lookup slot = none → Q false w)
    (htaken : ∀ i, (w.pack e).equips.lookup slot = some i → i ∉ (w.pack e).items →
      Q true ((w.setPack e ((w.pack e).takeOff slot i)).tell [.bagAddItem e i, .equipBarRemove e slot]))
    (herror : ∀ i, (w.pack e).equips.lookup slot = some i → i ∈ (w.pack e).items → E (.assertion .removeEquip) w) :
    wp (removeEquip e slot) Q E w := by
  rw [removeEquip, wp_bind, wp_getPack]
  cases hlookup : (w.pack e).equips.lookup slot with
  | none => exact hfree hlookup
  | some i =>
    simp only [wp_bind, wp_assertion, wp_modifyPack, wp_notify_tell, wp_pure, World.tell_tell]
    exact ⟨htaken i hlookup, fun hi => herror i hlookup (not_not.1 hi)⟩

/-- `add_equip` at a free slot, and at one that is taken. -/
theorem wp_addEquip (hi : i ∈ (w.pack e).items) (hcategory : (w.itemAt i).base.category = .equipable)
    (hfree : (w.pack e).equips.lookup slot = none → Q () ((w.setPack e ((w.pack e).putOn slot i)).tell
      [.bagRemoveItem e i, .equipBarAdd e slot i]))
    (htaken : ∀ j, (w.pack e).equips.lookup slot = some j → j ∉ (w.pack e).items →
      Q () ((w.setPack e (((w.pack e).takeOff slot j).putOn slot i)).tell
        [.bagAddItem e j, .equipBarRemove e slot, .bagRemoveItem e i, .equipBarAdd e slot i]))
    (herror : ∀ j, (w.pack e).equips.lookup slot = some j → j ∈ (w.pack e).items → E (.assertion .removeEquip) w) :
    wp (addEquip e i slot) Q E w := by
  rw [addEquip, wp_bind, wp_get, wp_bind, wp_assertion]
  refine ⟨fun _ => ?_, fun hnot => absurd ⟨hi, hcategory⟩ hnot⟩
  rw [wp_bind, wp_discard]
  refine wp_removeEquip (fun hlookup => ?_) (fun j hlookup hj => ?_) herror
  · rw [wp_bind, wp_modifyPack, wp_bind, wp_notify_tell, wp_notify_tell, World.tell_tell]
    exact hfree hlookup
  · rw [wp_bind, wp_modifyPack, wp_bind, wp_notify_tell, wp_notify_tell, World.tell_tell, World.pack_tell,
      World.pack_setPack_self, World.setPack_tell, World.setPack_setPack, World.tell_tell]
    exact htaken j hlookup hj

end Rules

end Slam.Game
