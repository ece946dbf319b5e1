import Slam.Game.Tools

/-!
# `entity.lua`, `card.lua` and `buff.lua`: an entity in a match

The operations of one entity that do not reach the match: its numbers, its four stacks of cards, its
buffs, and its part of a round. Scripts are called at breakpoints only; what their acts do is the
parameter `act`, which is tied to these functions in `Slam.Game.Perform`.

A turn of a loop that the source bounds by a number is counted by that number. The loop of
`round_end` is bounded by nothing the function itself checks, so it gets `fuel`.
-/

namespace Slam.Game

/-! ### Cards and buffs -/

/-- `Card:new`. The identifier is taken before the row is looked up. -/
def cardNew (env : Env) (baseid : ℤ) : Run ℤ := do
  let id := (← get).nextCard
  modify fun w => { w with nextCard := id + 1 }
  match env.cardTable baseid with
  | none => throw (.assertion .cardNew)
  | some base =>
    modify fun w => w.setCard id { baseid := baseid, base := base }
    assertion base.scriptFunc.isSome .cardNew
    return id

/-- `Card:set_field` and `Card:reset_field`: the card gets the fields of `base`. Its script stays the
one it was made with. -/
def setField (c : ℤ) (base : CardBase) : Run Unit := modify fun w =>
  let card := w.cardAt c
  w.setCard c { card with base := { base with scriptFunc := card.base.scriptFunc } }

/-- The layers of a buff after `Buff.layers_add`. -/
def Buff.addLayers (b : Buff) (value : ℤ) : Buff :=
  let layers := b.layers + value
  let layers := if b.base.enableNegativeLayer = false ∧ layers < 0 then 0 else layers
  { b with layers := if b.base.maxLayers < layers then b.base.maxLayers else layers }

/-- `Buff.layers_add`. -/
def layersAdd (b value : ℤ) : Run Unit :=
  modify fun w => w.setBuff b ((w.buffAt b).addLayers value)

/-- `Buff:new`. -/
def buffNew (env : Env) (e baseid layers : ℤ) : Run ℤ := do
  let id := (← get).nextBuff
  modify fun w => { w with nextBuff := id + 1 }
  match env.buffTable baseid with
  | none => throw (.assertion .buffNew)
  | some base =>
    assertion base.scriptFunc.isSome .buffNew
    modify fun w => w.setBuff id { entity := e, baseid := baseid, base := base, layers := 0 }
    layersAdd id layers
    return id

/-- `Entity:buff_find`. -/
def World.buffFind (w : World) (env : Env) (e baseid : ℤ) : Option ℤ :=
  (env.pairs (w.pack e).buffs).find? fun b => (w.buffAt b).baseid = baseid

/-! ### Numbers -/

/-- The numbers of a pack to which a value is added and that stay at zero or above. -/
inductive Attribute
  | mp | strength | armor | shield

namespace Attribute

def get (p : Pack) : Attribute → ℤ
  | mp => p.mp
  | strength => p.strength
  | armor => p.armor
  | shield => p.shield

def set (p : Pack) (value : ℤ) : Attribute → Pack
  | mp => { p with mp := value }
  | strength => { p with strength := value }
  | armor => { p with armor := value }
  | shield => { p with shield := value }

def func : Attribute → Func
  | mp => .mpAdd
  | strength => .strengthAdd
  | armor => .armorAdd
  | shield => .shieldAdd

end Attribute

/-- The common body of `mp_add`, `strength_add`, `armor_add` and `shield_add`. -/
def attributeAdd (a : Attribute) (e value : ℤ) : Run Unit := do
  if value = 0 then return
  assertion (0 ≤ a.get (← getPack e)) a.func
  modifyPack e fun p => a.set p (max 0 (a.get p + value))

/-- `Entity:mp_add`. -/
def mpAdd : ℤ → ℤ → Run Unit := attributeAdd .mp

/-- `Entity:strength_add`. -/
def strengthAdd : ℤ → ℤ → Run Unit := attributeAdd .strength

/-- `Entity:armor_add`. -/
def armorAdd : ℤ → ℤ → Run Unit := attributeAdd .armor

/-- `Entity:shield_add`. -/
def shieldAdd : ℤ → ℤ → Run Unit := attributeAdd .shield

/-- `Entity:maxhp_add`. -/
def maxhpAdd (e value : ℤ) : Run Unit := do
  if value = 0 then return
  modifyPack e fun p => { p with maxhp := max 0 (p.maxhp + value) }
  assertion (0 < (← getPack e).maxhp) .maxhpAdd

/-! ### Stacks -/

/-- The four stacks of a pack. -/
inductive Stack
  | deal | discard | exhaust | hold
  deriving DecidableEq

namespace Stack

def get (p : Pack) : Stack → List ℤ
  | deal => p.stackDeal
  | discard => p.stackDiscard
  | exhaust => p.stackExhaust
  | hold => p.stackHold

def set (p : Pack) (cards : List ℤ) : Stack → Pack
  | deal => { p with stackDeal := cards }
  | discard => { p with stackDiscard := cards }
  | exhaust => { p with stackExhaust := cards }
  | hold => { p with stackHold := cards }

/-- The function that inserts into the stack. -/
def insert : Stack → Func
  | deal => .stackDealInsert
  | discard => .stackDiscardInsert
  | exhaust => .stackExhaustInsert
  | hold => .stackHoldInsert

/-- The function that removes from the stack. -/
def remove : Stack → Func
  | deal => .stackDealRemove
  | discard => .stackDiscardRemove
  | exhaust => .stackExhaustRemove
  | hold => .stackHoldRemove

end Stack

/-- Ghost: notes that the stacks of an entity are used while one of its cards is about to leave the
hand. -/
def World.touch (w : World) (e : ℤ) : World :=
  { w with early := w.early || decide (e ∈ w.locked) }

/-- The common body of the functions `stack_*_insert`. -/
def stackInsert (s : Stack) (e c : ℤ) : Run Unit := do
  assertion (c ∉ s.get (← getPack e)) s.insert
  modify fun w => w.touch e
  modifyPack e fun p => s.set p (s.get p ++ [c])

/-- The common body of the functions `stack_*_remove`. -/
def stackRemove (s : Stack) (e c : ℤ) : Run Unit := do
  assertion (c ∈ s.get (← getPack e)) s.remove
  modify fun w => w.touch e
  modifyPack e fun p => s.set p ((s.get p).erase c)

/-- `Entity:stack_deal_insert`. -/
def stackDealInsert : ℤ → ℤ → Run Unit := stackInsert .deal

/-- `Entity:stack_deal_remove`. -/
def stackDealRemove : ℤ → ℤ → Run Unit := stackRemove .deal

/-- `Entity:stack_discard_insert`. -/
def stackDiscardInsert : ℤ → ℤ → Run Unit := stackInsert .discard

/-- `Entity:stack_discard_remove`. -/
def stackDiscardRemove : ℤ → ℤ → Run Unit := stackRemove .discard

/-- `Entity:stack_exhaust_insert`. -/
def stackExhaustInsert : ℤ → ℤ → Run Unit := stackInsert .exhaust

/-- `Entity:stack_exhaust_remove`. -/
def stackExhaustRemove : ℤ → ℤ → Run Unit := stackRemove .exhaust

/-- `Entity:stack_hold_insert`. -/
def stackHoldInsert : ℤ → ℤ → Run Unit := stackInsert .hold

/-- `Entity:stack_hold_remove`. -/
def stackHoldRemove : ℤ → ℤ → Run Unit := stackRemove .hold

/-- `Entity:stack_hold_newone`. -/
def stackHoldNewone (env : Env) (e baseid : ℤ) : Run Unit := do
  let c ← cardNew env baseid
  stackHoldInsert e c
  modifyPack e fun p => { p with newones := p.newones ++ [c] }

/-- `Entity:shuffle_stackdiscard`. -/
def shuffleStackdiscard (env : Env) (e : ℤ) : Run Unit := do
  (env.pairs (← getPack e).stackDiscard).forM fun c => do
    stackDealInsert e c
    stackDiscardRemove e c

/-- `Entity:shuffle_stackexhaust`. -/
def shuffleStackexhaust (env : Env) (e : ℤ) : Run Unit := do
  (env.pairs (← getPack e).stackExhaust).forM fun c => do
    stackDealInsert e c
    stackExhaustRemove e c

/-- A turn of the loops that move random cards of a stack to the hand; `f` names the assertion on the
pick. -/
def drawOne (env : Env) (f : Func) (s : Stack) (e : ℤ) : Run Unit := do
  match ← tableRandom env e (s.get (← getPack e)) with
  | none => throw (.assertion f)
  | some c =>
    assertion (c ∈ s.get (← getPack e)) f
    stackHoldInsert e c
    stackRemove s e c

/-- The common loop of the functions `card_draw_from_*`. -/
def cardDraw (env : Env) (s : Stack) (e : ℤ) : ℕ → Run Unit
  | 0 => pure ()
  | n + 1 => do
    if (s.get (← getPack e)).length = 0 then return
    drawOne env .cardDraw s e
    cardDraw env s e n

/-- `Entity:card_draw_from_stackdeal`. -/
def cardDrawFromStackdeal (env : Env) (e number : ℤ) : Run Unit := cardDraw env .deal e number.toNat

/-- `Entity:card_draw_from_stackdiscard`. -/
def cardDrawFromStackdiscard (env : Env) (e number : ℤ) : Run Unit :=
  cardDraw env .discard e number.toNat

/-- `Entity:card_draw_from_stackexhaust`. -/
def cardDrawFromStackexhaust (env : Env) (e number : ℤ) : Run Unit :=
  cardDraw env .exhaust e number.toNat

/-! ### Breakpoints -/

section Scripts

variable (env : Env) (act : Act → Run Unit)

/-- A call of the function a row names. -/
def callScript (f : Option ScriptFunc) (call : ScriptCall) : Run Unit := do
  match f with
  | none => throw .callNil
  | some f => (env.script f call (← get)).forM act

/-- `match.entities[pick_entityid]`, where an entity has been picked. -/
def pickEntity : Option ℤ → Run (Option ℤ)
  | none => return none
  | some p => do
    if p ∈ (← getMatch).entities then return some p else return none

/-- `Entity:breakpoint`. A buff that a script has removed is not visited any more. -/
def breakpoint (e : ℤ) (card pick : Option ℤ) (bp : Option BreakPoint) : Run Unit := do
  let pick ← pickEntity pick
  match card with
  | none => pure ()
  | some c => do
    let base := ((← get).cardAt c).base
    if base.enableScript then
      callScript env act base.scriptFunc { entity := e, card := card, buff := none, pick := pick, bp := bp }
  (env.pairs (← getPack e).buffs).forM fun b => do
    let w ← get
    let base := (w.buffAt b).base
    if b ∈ (w.pack e).buffs ∧ base.enableScript then
      callScript env act base.scriptFunc
        { entity := e, card := card, buff := some b, pick := pick, bp := bp }

/-! ### Buffs -/

/-- `Entity:buff_add`. The globals `BUFF_ADD_A` and `BUFF_ADD_Z` are nil. -/
def buffAdd (e baseid layers : ℤ) : Run Unit := do
  match env.buffTable baseid with
  | none => throw (.assertion .buffAdd)
  | some base =>
    if base.span ≠ .none ∧ base.span ≠ (← getPack e).span then return
    match (← get).buffFind env e baseid with
    | some b => layersAdd b layers
    | none =>
      breakpoint env act e none none none
      let b ← buffNew env e baseid layers
      assertion (b ∉ (← getPack e).buffs) .buffAdd
      modifyPack e fun p => { p with buffs := p.buffs ++ [b] }
      breakpoint env act e none none none

/-- `Entity:buff_remove`. -/
def buffRemove (e b : ℤ) : Run Unit := do
  assertion (b ∈ (← getPack e).buffs) .buffRemove
  breakpoint env act e none none none
  if b ∉ (← getPack e).buffs then throw .indexNil
  modifyPack e fun p => { p with buffs := p.buffs.erase b }
  breakpoint env act e none none none

/-- `Entity:buff_clear`. A buff that a script has removed is not visited any more. -/
def buffClear (e : ℤ) : Run Unit := do
  (env.pairs (← getPack e).buffs).forM fun b => do
    if b ∈ (← getPack e).buffs then buffRemove env act e b

/-- `BuffExt.modifyLayers`. -/
def modifyLayers (b layers : ℤ) : Run Unit := do
  layersAdd b layers
  let buff := (← get).buffAt b
  if buff.layers = 0 then buffRemove env act buff.entity b

/-! ### Rounds -/

/-- The loop of `card_deal`. -/
def dealCards (e : ℤ) : ℕ → Run Unit
  | 0 => pure ()
  | n + 1 => do
    if (← getPack e).stackDeal.length = 0 then shuffleStackdiscard env e
    if (← getPack e).stackDeal.length = 0 then return
    drawOne env .cardDealPick .deal e
    dealCards e n

/-- `Entity:card_deal`. -/
def cardDeal (e : ℤ) : Run Unit := do
  if ((← get).entityAt e).death then return
  breakpoint env act e none none (some .cardDealA)
  let roundCards := (← getPack e).roundCards
  assertion (0 < roundCards) .cardDeal
  dealCards env e roundCards.toNat
  breakpoint env act e none none (some .cardDealZ)

/-- `Entity:round_begin`. -/
def roundBegin (e : ℤ) : Run Unit := do
  if ((← get).entityAt e).death then return
  breakpoint env act e none none (some .roundBeginA)
  let w ← get
  let roundMp := (w.entityAt e).base.roundMp
  assertion (0 ≤ (w.pack e).mp ∧ 0 < roundMp) .roundBegin
  if (w.pack e).mp < roundMp then mpAdd e (roundMp - (w.pack e).mp)
  breakpoint env act e none none (some .roundBeginZ)
  cardDeal env act e

/-- The breakpoint before a card of the entity leaves the hand. Ghost: the entity is locked during
it. -/
def whileLocked (e : ℤ) (x : Run Unit) : Run Unit := do
  modify fun w => { w with locked := e :: w.locked }
  x
  modify fun w => { w with locked := w.locked.tail }

/-- A card leaves the hand: `stack_hold_remove` in `card_play` and `card_discard`. -/
def leaveHand (e c : ℤ) : Run Unit := do
  stackHoldRemove e c
  modifyPack e fun p => { p with settling := c :: p.settling }

/-- Where `card_play` and `card_discard` put a card at their end. -/
def fileCard (e c : ℤ) : Run Unit := do
  let base := ((← get).cardAt c).base
  if base.intoStackdiscard then
    stackDiscardInsert e c
    modifyPack e fun p => { p with settling := p.settling.erase c }
  else if base.intoStackexhaust then
    stackExhaustInsert e c
    modifyPack e fun p => { p with settling := p.settling.erase c }
  else
    modifyPack e fun p => { p with settling := p.settling.erase c, destroyed := p.destroyed ++ [c] }

/-- The card leaves the hand, the breakpoint after that runs, and the card is filed. -/
def settleCard (e c : ℤ) (x : Run Unit) : Run Unit := do
  leaveHand e c
  x
  fileCard e c

/-- `Entity:card_play`. -/
def cardPlay (e c : ℤ) (pick : Option ℤ) : Run Bool := do
  let w ← get
  if (w.entityAt e).death then return false
  if c ∉ (w.pack e).stackHold then return false
  if (w.cardAt c).base.enablePlay = false then return false
  whileLocked e (breakpoint env act e (some c) pick (some .cardPlayA))
  let w ← get
  let base := (w.cardAt c).base
  if base.requireCareer ≠ 0 ∧ base.requireCareer ≠ (w.entityAt e).base.career then return false
  if (w.pack e).mp < base.costMp then return false
  mpAdd e (-base.costMp)
  if base.resumeMp ≠ none ∧ base.resumeMp ≠ some 0 then mpAdd e (base.resumeMp.getD 0)
  settleCard e c (breakpoint env act e (some c) pick (some .cardPlayZ))
  return true

/-- `Entity:card_discard`. -/
def cardDiscard (e c : ℤ) (passive : Bool) : Run Unit := do
  let w ← get
  if (w.entityAt e).death then return
  if c ∉ (w.pack e).stackHold then return
  if (w.cardAt c).base.enableDiscard = false ∧ passive = false then return
  whileLocked e (breakpoint env act e (some c) none (some .cardDiscardA))
  settleCard e c (breakpoint env act e (some c) none (some .cardDiscardZ))

/-- The loop of `round_end`. `stack_hold_retrieve` finds a card, since the hand is not empty. -/
def discardExtra (e : ℤ) : ℕ → Run Unit
  | 0 => throw .timeout
  | fuel + 1 => do
    let p ← getPack e
    if 0 < p.stackHold.length ∧ p.maxHoldCards < p.stackHold.length then
      match (env.pairs p.stackHold).head? with
      | none => throw .formatNil
      | some c =>
        cardDiscard env act e c true
        discardExtra e fuel

/-- `Entity:round_end`. -/
def roundEnd (fuel : ℕ) (e : ℤ) : Run Unit := do
  if ((← get).entityAt e).death then return
  breakpoint env act e none none (some .roundEndA)
  discardExtra env act e fuel
  breakpoint env act e none none (some .roundEndZ)

end Scripts

end Slam.Game
