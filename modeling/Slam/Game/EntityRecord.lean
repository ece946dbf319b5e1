import Slam.Lib.Assoc
import Slam.Game.Creation

/-!
# `record.lua`: saving and restoring an entity

`serialize` writes what an entity owns into a record, `unserialize` reads the record back, and `pack_init` fills
the pack of an entity that is no newbie from it. The record goes under other keys than the pack: cards, equips and
puppets are lists of base ids, items and buffs are tables by base id.

The text between the two, of `tools/json`, is a parameter: `encode` and `decode`.
-/

namespace Slam.Game

/-- The entries of a table, in the order in which `pairs` visits its keys. -/
def Env.visit {α : Type} (env : Env) (t : List (ℤ × α)) : List (ℤ × α) :=
  (env.pairs (t.map Prod.fst)).filterMap fun k => (t.lookup k).map fun v => (k, v)

/-! ### The record -/

/-- A stack of items in a record. -/
structure ItemRecord where
  number : ℤ
  useTimes : ℤ
  deriving DecidableEq

/-- `record[copy].pack`. There is no discount in it. -/
structure PackRecord where
  hp : ℤ
  mp : ℤ
  maxhp : ℤ
  roundMp : ℤ
  strength : ℤ
  armor : ℤ
  shield : ℤ
  weakness : ℚ
  roundCards : ℤ
  maxHoldCards : ℤ
  gold : ℤ
  cards : List ℤ
  items : List (ℤ × ItemRecord)
  equips : List ℤ
  puppets : List ℤ
  placeholders : List (ℤ × ℤ)
  buffs : List (ℤ × ℤ)
  deriving DecidableEq

/-- `record[copy]`; `layers` has the accomplished events of each layer. -/
structure CopyRecord where
  currentLayer : ℤ
  layers : List (ℤ × List ℤ) := []
  pack : Option PackRecord := none
  deriving DecidableEq

/-- `entity.record`. -/
structure EntityRecord where
  id : ℤ
  createtime : ℤ
  seed : ℤ
  copies : List (ℤ × CopyRecord) := []
  deriving DecidableEq

/-- A pack with the two fields that nothing else reads. -/
structure FullPack extends Pack where
  weakness : ℚ := 1
  discount : Option ℚ := some 1

/-- What `record.lua` reads of an entity, its copy and its scene, apart from the pack. -/
structure Visitor where
  entity : ℤ
  createtime : ℤ := 0
  seed : ℤ := 0
  record : Option EntityRecord := none
  copyBaseid : ℤ := 0
  currentLayer : ℤ := 1
  events : List Event := []

/-- `Entity:set_discount`. -/
def setDiscount (x : FullPack) (value : ℚ) : Run FullPack := do
  match x.discount with
  | none => throw .arithNil
  | some discount =>
    assertion (0 ≤ discount) .setDiscount
    return { x with discount := some (if value < 0 then 0 else value) }

/-- `buff.layer`. A buff has no field of this name; its layers are `layers`. -/
def Buff.layer (_ : Buff) : Option ℤ := none

/-- The part of `record.serialize` for the pack. -/
def serializePack (env : Env) (w : World) (x : FullPack) : PackRecord where
  hp := x.hp
  mp := x.mp
  maxhp := x.maxhp
  roundMp := x.roundMp
  strength := x.strength
  armor := x.armor
  shield := x.shield
  weakness := x.weakness
  roundCards := x.roundCards
  maxHoldCards := x.maxHoldCards
  gold := x.gold
  cards := (env.pairs x.cards).map fun c => (w.cardAt c).baseid
  items := (env.pairs x.items).foldl (fun t i =>
    Assoc.assign t (w.itemAt i).baseid (some { number := (w.itemAt i).number, useTimes := (w.itemAt i).useTimes })) []
  equips := (env.visit x.equips).map fun (_, i) => (w.itemAt i).baseid
  puppets := (env.pairs x.puppets).map fun t => (w.entityAt t).baseid
  placeholders := (env.visit x.placeholders).foldl (fun t (slot, target) =>
    Assoc.assign t slot (some (w.entityAt target).baseid)) []
  buffs := (env.pairs x.buffs).foldl (fun t b => Assoc.assign t (w.buffAt b).baseid (w.buffAt b).layer) []

/-- The record that `record.serialize` starts from. -/
def Visitor.recordOf (v : Visitor) : EntityRecord :=
  v.record.getD { id := v.entity, createtime := v.createtime, seed := v.seed }

/-- The record of the copy that it starts from. -/
def Visitor.copyOf (v : Visitor) : CopyRecord :=
  (v.recordOf.copies.lookup v.copyBaseid).getD { currentLayer := v.currentLayer }

/-- `events_accomplish`, to which the accomplished events of the scene are added. -/
def Visitor.eventsAccomplish (v : Visitor) : List ℤ :=
  (v.copyOf.layers.lookup v.currentLayer).getD [] ++ (v.events.filter Event.accomplish).map Event.baseid

/-- `record[copy]` after `record.serialize`. -/
def serializeCopy (env : Env) (w : World) (v : Visitor) (x : FullPack) : CopyRecord where
  currentLayer := v.currentLayer
  layers := Assoc.assign v.copyOf.layers v.currentLayer (some v.eventsAccomplish)
  pack := some (serializePack env w x)

/-- `record.serialize`: the record that is written. -/
def serialize (env : Env) (w : World) (v : Visitor) (x : FullPack) : EntityRecord :=
  { v.recordOf with copies := Assoc.assign v.recordOf.copies v.copyBaseid (some (serializeCopy env w v x)) }

/-- `record.unserialize`, from the text that the host has stored. -/
def unserialize {J : Type} (decode : J → Option EntityRecord) (id : ℤ) : Option J → Run (Option EntityRecord)
  | none => return none
  | some text =>
    match decode text with
    | none => throw (.assertion .unserialize)
    | some t => return some { t with id := id }

/-! ### The pack of an entity that has been there before -/

/-- The numbers of the record. -/
def PackRecord.initial (t : PackRecord) (span : Span) : Pack :=
  { span := span, hp := t.hp, mp := t.mp, maxhp := t.maxhp, roundMp := t.roundMp
    strength := t.strength, armor := t.armor, shield := t.shield, roundCards := t.roundCards
    maxHoldCards := t.maxHoldCards, gold := t.gold }

/-- A stack of items of the record. -/
def restoreItem (env : Env) (p : Pack) (entry : ℤ × ItemRecord) : Run Pack := do
  let w ← get
  match (env.pairs p.items).find? fun i => (w.itemAt i).baseid = entry.1 with
  | some i =>
    setNumber i ((w.itemAt i).number + entry.2.number)
    return p
  | none =>
    let i ← itemNew env entry.1 entry.2.number
    assertion (i ∉ p.items) .packInit
    modify fun w => w.setItem i { w.itemAt i with useTimes := entry.2.useTimes }
    return { p with items := p.items ++ [i] }

/-- An equip of the record. It is put at its own identifier, not at a slot. -/
def restoreEquip (env : Env) (p : Pack) (baseid : ℤ) : Run Pack := do
  let i ← itemNew env baseid 1
  assertion (p.equips.lookup i = none) .packInit
  return { p with equips := p.equips ++ [(i, i)] }

/-- A puppet of the record; `new` makes it. -/
def restorePuppet (new : ℤ → Run ℤ) (p : Pack) (baseid : ℤ) : Run Pack := do
  let target ← new baseid
  return { p with puppets := p.puppets.erase target ++ [target] }

/-- A placeholder of the record: the master if it has its base id, and a new puppet otherwise. -/
def restorePlaceholder (new : ℤ → Run ℤ) (e baseid : ℤ) (p : Pack) (entry : ℤ × ℤ) : Run Pack := do
  if entry.2 = baseid then return p.setPlaceholder entry.1 e
  let target ← new entry.2
  return p.setPlaceholder entry.1 target

/-- `Entity:pack_init` of an entity with a record. -/
def packRestore (env : Env) (new : ℤ → Run ℤ) (e baseid : ℤ) (span : Span) (t : PackRecord) : Run FullPack := do
  let p ← (env.pairs t.cards).foldlM (initCard env) (t.initial span)
  let p ← (env.visit t.items).foldlM (restoreItem env) p
  let p ← (env.pairs t.equips).foldlM (restoreEquip env) p
  let p ← (env.pairs t.puppets).foldlM (restorePuppet new) p
  let p ← (env.visit t.placeholders).foldlM (restorePlaceholder new e baseid) p
  assertion (e ∈ p.placeholders.map Prod.snd) .packInit
  let p ← (env.visit t.buffs).foldlM (initBuff env e) p
  return { toPack := p, weakness := t.weakness, discount := none }

/-- `Entity:pack_init`, for a newbie or from the record of the copy. -/
def packInitRecord (env : Env) (new : ℤ → Run ℤ) (e baseid : ℤ) (base : EntityBase) (span : Span) (copyBaseid : ℤ)
    (record : Option EntityRecord) : Run FullPack := do
  match record.bind fun t => t.copies.lookup copyBaseid with
  | none => return { toPack := ← packInit env new e baseid base span }
  | some t =>
    match t.pack with
    | none => throw .indexNil
    | some q => packRestore env new e baseid span q

/-- An entity is saved in one world and its pack is made again in another. -/
def reload {J : Type} (env : Env) (encode : EntityRecord → J) (decode : J → Option EntityRecord) (fuel : ℕ) (w : World)
    (v : Visitor) (x : FullPack) : Run FullPack := do
  let record ← unserialize decode v.entity (some (encode (serialize env w v x)))
  let owner := w.entityAt v.entity
  packInitRecord env (entityNew env owner.side x.span fuel (some v.entity)) v.entity owner.baseid owner.base x.span
    v.copyBaseid record

end Slam.Game
