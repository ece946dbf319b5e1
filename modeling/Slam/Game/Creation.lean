import Slam.Game.Pack

/-!
# `entity.lua`: making and destroying entities

An entity is made with the pack that its row gives it, and the puppets of its row are made with it, so
that `Entity:new` calls itself; the depth of these calls is bounded by `fuel`. The pack is filled before
the entity has it: `packInit` carries it through its loops. Records of former visits are not read any
more, so every entity is a newbie.

The buffs of a row are not made as they are meant to be: `pack_init` passes the identifier that
`cc.BuffAdd` returns where `Buff:new` takes the base id, and the base id where it takes the layers.
-/

namespace Slam.Game

/-- The entries of a table of numbers, in the order in which `pairs` visits its keys. -/
def Env.entries (env : Env) (t : List (ℤ × ℤ)) : List (ℤ × ℤ) :=
  (env.pairs (t.map Prod.fst).dedup).filterMap fun k => (t.lookup k).map fun n => (k, n)

/-! ### The pack of a new entity -/

/-- The base property of a new pack, with its owner in front. -/
def Pack.initial (e : ℤ) (base : EntityBase) (span : Span) : Pack :=
  { span := span, hp := base.inithp, mp := base.roundMp, maxhp := base.maxhp, roundMp := base.roundMp
    strength := base.strength, armor := base.armor, shield := base.shield, roundCards := base.roundCards
    maxHoldCards := base.maxHoldCards, gold := base.initGold, placeholders := [(Placeholder.front, e)] }

/-- A card of the row. -/
def initCard (env : Env) (p : Pack) (baseid : ℤ) : Run Pack := do
  let c ← cardNew env baseid
  assertion (c ∉ p.cards) .packInit
  return { p with cards := p.cards ++ [c] }

/-- The loop that fills the slots of a new pack with an item. -/
def initItemLoop (env : Env) (baseid : ℤ) : ℕ → ℤ → Pack → Run Pack
  | 0, _, p => return p
  | slots + 1, number, p => do
    if number ≤ 0 then return p
    let i ← itemNew env baseid number
    assertion (i ∉ p.items) .packInit
    let item := (← get).itemAt i
    if item.base.category = .usable then return { p with items := p.items ++ [i] }
    initItemLoop env baseid slots (number - item.number) { p with items := p.items ++ [i] }

/-- An item of the row with its number. -/
def initItem (env : Env) (base : EntityBase) (p : Pack) (entry : ℤ × ℤ) : Run Pack := do
  let w ← get
  let slots := (base.maxPackSlots - p.items.length).toNat
  match (env.pairs p.items).find? fun i => (w.itemAt i).baseid = entry.1 with
  | none => initItemLoop env entry.1 slots entry.2 p
  | some i =>
    let number := entry.2 + (w.itemAt i).number
    setNumber i ((w.itemAt i).number + number)
    let now := ((← get).itemAt i).number
    initItemLoop env entry.1 slots (number - now) p

/-- A puppet of the row with its placeholder; `new` makes it. -/
def initPuppet (new : ℤ → Run ℤ) (baseid : ℤ) (p : Pack) (entry : ℤ × ℤ) : Run Pack := do
  assertion (entry.1 ≠ baseid) .packInit
  let target ← new entry.1
  if entry.2 = Placeholder.none then
    assertion (target ∉ p.puppets) .packInit
    return { p with puppets := p.puppets ++ [target] }
  assertion (entry.2 = Placeholder.front ∨ entry.2 = Placeholder.middle ∨ entry.2 = Placeholder.back) .packInit
  assertion (p.placeholders.lookup entry.2 = none) .packInit
  return { p with placeholders := p.placeholders ++ [(entry.2, target)] }

/-- A buff of the row with its layers, made from the wrong arguments. -/
def initBuff (env : Env) (e : ℤ) (p : Pack) (entry : ℤ × ℤ) : Run Pack := do
  let w ← get
  match (env.pairs p.buffs).find? fun b => (w.buffAt b).baseid = entry.1 with
  | some b =>
    layersAdd b entry.2
    return p
  | none =>
    modify fun w => { w with nextBuff := w.nextBuff + 1 }
    let b ← buffNew env e w.nextBuff entry.1
    assertion (b ∉ p.buffs) .packInit
    return { p with buffs := p.buffs ++ [b] }

/-- `Entity:pack_init`. -/
def packInit (env : Env) (new : ℤ → Run ℤ) (e baseid : ℤ) (base : EntityBase) (span : Span) : Run Pack := do
  let p ← (env.pairs base.initCards).foldlM (initCard env) (Pack.initial e base span)
  let p ← (env.entries base.initItems).foldlM (initItem env base) p
  let p ← (env.entries base.initPuppets).foldlM (initPuppet new baseid) p
  (env.entries base.initBuffs).foldlM (initBuff env e) p

/-- `Entity:new` with the identifier from `cc.EntityNew`. -/
def entityNew (env : Env) (side : Side) (span : Span) : ℕ → Option ℤ → ℤ → Run ℤ
  | 0, _, _ => throw .timeout
  | fuel + 1, master, baseid => do
    let id := (← get).nextEntity
    modify fun w => { w with nextEntity := id + 1 }
    match env.entityTable baseid with
    | none => throw (.assertion .entityNew)
    | some base =>
      modify fun w => w.setEntity id
        { baseid := baseid, base := base, master := master, side := side, seed := env.birth id }
      let p ← packInit env (entityNew env side span fuel (some id)) id baseid base span
      modifyPack id fun _ => p
      notifyClient env id
      return id

/-- `Entity:add_puppet`. -/
def addPuppet (env : Env) (fuel : ℕ) (e baseid : ℤ) : Run ℤ := do
  let w ← get
  let target ← entityNew env (w.entityAt e).side (w.pack e).span fuel (some e) baseid
  assertion (target ∉ (← getPack e).puppets) .addPuppet
  modifyPack e fun p => { p with puppets := p.puppets ++ [target] }
  notify (.bagAddPuppet e target)
  return target

/-! ### The end of an entity -/

/-- The entities that the destructor of an entity destructs first. -/
def Pack.dependents (p : Pack) (e : ℤ) : List ℤ :=
  (p.puppets ++ p.placeholders.map Prod.snd).filter fun t => t ≠ e

/-- `Entity.destructor`. An entity that is destructed again has no pack. -/
def entityDestroy (env : Env) : ℕ → ℤ → Run Unit
  | 0, _ => throw .timeout
  | fuel + 1, e => do
    let w ← get
    if (w.entityAt e).freed then throw .indexNil
    ((env.pairs (w.pack e).puppets).filter fun t => t ≠ e).forM (entityDestroy env fuel)
    ((w.pack e).placeholders.map Prod.snd |>.filter fun t => t ≠ e).forM (entityDestroy env fuel)
    modifyEntity e fun x => { x with freed := true, pack := {} }
    if (← get).entityMaster.isNone then throw .indexNil

/-- `Entity:remove_puppet`. -/
def removePuppet (env : Env) (fuel : ℕ) (e target : ℤ) : Run Bool := do
  if target ∉ (← getPack e).puppets then return false
  modifyPack e fun p => { p with puppets := p.puppets.erase target }
  notify (.bagRemovePuppet e target)
  entityDestroy env fuel target
  return true

end Slam.Game
