import Slam.Game.Entity

/-!
# `pack.lua` and `item.lua`: what an entity owns

Gold, cards, items and equipment, the delivery from one pack to another, and what the client is told
about a pack. A loop that fills the slots of a pack is counted by the slots that are free.
-/

namespace Slam.Game

/-- `Entity:add_gold`. -/
def addGold (e value : ℤ) : Run Unit := do
  let old := (← getPack e).gold
  assertion (0 ≤ old) .addGold
  modifyPack e fun p => { p with gold := max 0 (p.gold + value) }
  notify (.bagSetGold e (← getPack e).gold old)

/-- `Entity:add_card`. -/
def addCard (env : Env) (e baseid : ℤ) : Run ℤ := do
  let c ← cardNew env baseid
  assertion (c ∉ (← getPack e).cards) .addCard
  modifyPack e fun p => { p with cards := p.cards ++ [c] }
  notify (.bagAddCard e c)
  return c

/-- `Entity:remove_card`. -/
def removeCard (e c : ℤ) : Run Unit := do
  assertion (c ∈ (← getPack e).cards) .removeCard
  modifyPack e fun p => { p with cards := p.cards.erase c }
  notify (.bagRemoveCard e c)

/-! ### Items -/

/-- The number of an item that is asked to have `number`. -/
def ItemBase.clampNumber (base : ItemBase) (number : ℤ) : ℤ :=
  let number := if number < 0 then 0 else number
  if base.maxOverlap < number then (if 0 < base.maxOverlap then base.maxOverlap else 1) else number

/-- `Item:new`. -/
def itemNew (env : Env) (baseid number : ℤ) : Run ℤ := do
  match env.itemTable baseid with
  | none => throw .indexNil
  | some base =>
    let id := (← get).nextItem
    modify fun w => { w with nextItem := id + 1 }
    modify fun w => w.setItem id
      { baseid := baseid, base := base, number := base.clampNumber number, useTimes := 0 }
    assertion base.scriptFunc.isSome .itemNew
    return id

/-- `Item:set_number`. -/
def setNumber (i number : ℤ) : Run Unit := modify fun w =>
  let item := w.itemAt i
  w.setItem i { item with number := item.base.clampNumber number }

/-- `Entity:find_item_by_baseid`. -/
def World.findItemByBaseid (w : World) (env : Env) (e baseid : ℤ) : Option ℤ :=
  (env.pairs (w.pack e).items).find? fun i => (w.itemAt i).baseid = baseid

/-- The loop of `add_item`. -/
def addItemLoop (env : Env) (e baseid : ℤ) : ℕ → ℤ → Run Unit
  | 0, _ => pure ()
  | slots + 1, number => do
    if 0 < number then
      let i ← itemNew env baseid number
      assertion (i ∉ (← getPack e).items) .addItem
      modifyPack e fun p => { p with items := p.items ++ [i] }
      notify (.bagAddItem e i)
      let item := (← get).itemAt i
      if item.base.category ≠ .usable then addItemLoop env e baseid slots (number - item.number)

/-- The free slots of a pack. -/
def World.freeSlots (w : World) (e : ℤ) : ℕ :=
  ((w.entityAt e).base.maxPackSlots - (w.pack e).items.length).toNat

/-- `Entity:add_item`. The number of an item that is there already is counted twice. -/
def addItem (env : Env) (e baseid number : ℤ) : Run Unit := do
  let w ← get
  match w.findItemByBaseid env e baseid with
  | none => addItemLoop env e baseid (w.freeSlots e) number
  | some i =>
    let number := number + (w.itemAt i).number
    setNumber i ((w.itemAt i).number + number)
    let now := ((← get).itemAt i).number
    notify (.bagSetItemNumber e i now)
    addItemLoop env e baseid (w.freeSlots e) (number - now)

/-- `Entity:remove_item`. -/
def removeItem (e i number : ℤ) : Run Unit := do
  assertion (i ∈ (← getPack e).items) .removeItem
  setNumber i (((← get).itemAt i).number - number)
  let now := ((← get).itemAt i).number
  if 0 < now then notify (.bagSetItemNumber e i now)
  else
    modifyPack e fun p => { p with items := p.items.erase i }
    notify (.bagRemoveItem e i)

/-- `Entity:remove_equip`. -/
def removeEquip (e slot : ℤ) : Run Bool := do
  let p ← getPack e
  match p.equips.lookup slot with
  | none => return false
  | some i =>
    assertion (i ∉ p.items) .removeEquip
    modifyPack e fun p => { p with
      items := p.items ++ [i], equips := p.equips.filter fun x => x.1 ≠ slot }
    notify (.bagAddItem e i)
    notify (.equipBarRemove e slot)
    return true

/-- `Entity:add_equip` at a slot. -/
def addEquip (e i slot : ℤ) : Run Unit := do
  let w ← get
  assertion (i ∈ (w.pack e).items ∧ (w.itemAt i).base.category = .equipable) .addEquip
  discard <| removeEquip e slot
  modifyPack e fun p => { p with items := p.items.erase i, equips := p.equips ++ [(slot, i)] }
  notify (.bagRemoveItem e i)
  notify (.equipBarAdd e slot i)

/-! ### Placeholders -/

/-- `placeholders[slot] = nil`. -/
def Pack.clearPlaceholder (p : Pack) (slot : ℤ) : Pack :=
  { p with placeholders := p.placeholders.filter fun x => x.1 ≠ slot }

/-- `placeholders[slot] = target`. -/
def Pack.setPlaceholder (p : Pack) (slot target : ℤ) : Pack :=
  { p with placeholders := (p.placeholders.filter fun x => x.1 ≠ slot) ++ [(slot, target)] }

/-- The part of `arrange_placeholder` that takes a puppet back from a placeholder. -/
def takeBack (e placeholder : ℤ) : Run Bool := do
  match (← getPack e).placeholders.lookup placeholder with
  | none => throw (.assertion .arrangePlaceholder)
  | some target =>
    if target = e then return false
    modifyPack e fun p => p.clearPlaceholder placeholder
    notify (.bagArrangePlaceholder e 0 placeholder)
    assertion (target ∉ (← getPack e).puppets) .arrangePlaceholder
    modifyPack e fun p => { p with puppets := p.puppets ++ [target] }
    notify (.bagAddPuppet e target)
    return true

/-- The part of `arrange_placeholder` that moves a puppet from the bag to a placeholder. -/
def moveToPlaceholder (e target placeholder : ℤ) : Run Bool := do
  assertion (target ≠ e) .arrangePlaceholder
  let targetOld := (← getPack e).placeholders.lookup placeholder
  if targetOld = some e then return false
  modifyPack e fun p => { p with puppets := p.puppets.erase target }
  notify (.bagRemovePuppet e target)
  match targetOld with
  | none => pure ()
  | some old =>
    modifyPack e fun p => p.clearPlaceholder placeholder
    notify (.bagArrangePlaceholder e 0 placeholder)
    assertion (old ∉ (← getPack e).puppets) .arrangePlaceholder
    modifyPack e fun p => { p with puppets := p.puppets ++ [old] }
    notify (.bagAddPuppet e old)
  modifyPack e fun p => p.setPlaceholder placeholder target
  notify (.bagArrangePlaceholder e target placeholder)
  return true

/-- The part of `arrange_placeholder` that moves an entity from one placeholder to another. -/
def swapPlaceholder (env : Env) (e target placeholder : ℤ) : Run Bool := do
  let p ← getPack e
  match (env.pairs (p.placeholders.map Prod.fst)).find? fun slot =>
      p.placeholders.lookup slot = some target with
  | none => return false
  | some slot =>
    modifyPack e fun p => p.clearPlaceholder slot
    notify (.bagArrangePlaceholder e 0 slot)
    match (← getPack e).placeholders.lookup placeholder with
    | none => pure ()
    | some old =>
      modifyPack e fun p => p.clearPlaceholder placeholder
      notify (.bagArrangePlaceholder e 0 placeholder)
      modifyPack e fun p => p.setPlaceholder slot old
      notify (.bagArrangePlaceholder e old slot)
    modifyPack e fun p => p.setPlaceholder placeholder target
    notify (.bagArrangePlaceholder e target placeholder)
    return true

/-- `Entity:arrange_placeholder`. The first log line formats both arguments, before they are checked. -/
def arrangePlaceholder (env : Env) (e : ℤ) : Option ℤ → Option ℤ → Run Bool
  | some target, some placeholder => do
    if placeholder ∉ [Placeholder.none, Placeholder.front, Placeholder.middle, Placeholder.back] then
      return false
    if target = 0 then takeBack e placeholder
    else if placeholder = Placeholder.none then return false
    else if target ∈ (← getPack e).puppets then moveToPlaceholder e target placeholder
    else swapPlaceholder env e target placeholder
  | _, _ => throw .formatNil

/-! ### Delivery -/

/-- The hp and maxhp that a pack takes from a pack of a shorter span. -/
def Pack.receive (p src : Pack) : Pack :=
  { p with maxhp := src.maxhp, hp := min (max src.hp 0) src.maxhp }

/-- `src:delivery(pack)`, where `write` changes the pack that receives. -/
def delivery (env : Env) (src : Pack) (span : Span) (write : (Pack → Pack) → Run Unit) : Run Unit := do
  assertion (src.span ≠ span) .delivery
  if span.value < src.span.value then
    write fun p => { p with
      hp := src.hp, mp := src.mp, maxhp := src.maxhp, roundMp := src.roundMp
      strength := src.strength, armor := src.armor, shield := src.shield
      roundCards := src.roundCards, maxHoldCards := src.maxHoldCards, gold := src.gold }
    (env.pairs src.cards).forM fun c => do
      let new ← cardNew env ((← get).cardAt c).baseid
      write fun p => { p with cards := p.cards ++ [new] }
    (env.pairs src.items).forM fun i => do
      let item := (← get).itemAt i
      let new ← itemNew env item.baseid item.number
      write fun p => { p with items := p.items ++ [new] }
    src.equips.forM fun (slot, i) => do
      let item := (← get).itemAt i
      let new ← itemNew env item.baseid item.number
      write fun p => { p with equips := p.equips ++ [(slot, new)] }
    write fun p => { p with puppets := src.puppets, placeholders := src.placeholders }
  else
    write fun p => p.receive src

/-- `Pack:notify_client`. -/
def notifyClient (env : Env) (e : ℤ) : Run Unit := do
  let p ← getPack e
  notify (.bagClearCard e)
  notify (.bagClearItem e)
  notify (.bagClearPuppet e)
  notify (.bagClearEquip e)
  notify (.bagSetGold e p.gold p.gold)
  (env.pairs p.cards).forM fun c => notify (.bagAddCard e c)
  (env.pairs p.items).forM fun i => notify (.bagAddItem e i)
  p.equips.forM fun (slot, i) => notify (.equipBarAdd e slot i)
  (env.pairs p.puppets).forM fun t => notify (.bagAddPuppet e t)
  p.placeholders.forM fun (slot, t) => notify (.bagArrangePlaceholder e t slot)

end Slam.Game
