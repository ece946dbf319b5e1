import Slam.Game.Creation

/-!
# `scene.lua` and `entity.lua`: shops and rewards

A member of the scene may buy, destroy and level up at the event that has been triggered, or claim one
of its rewards. The six requests begin with the same checks of the event (`touchEvent`) and go on with a
function of the entity, which does the exchange or grants the reward.

Two of them never come to an exchange. `Scene:purchase_item` passes on the name `card_baseid`, which is
nothing there, and `Entity:levelup_puppet` calls `retrieve_placeholder`, which no entity has.
-/

namespace Slam.Game

/-! ### The triggered event -/

/-- The world with fields of the event rewritten that has been triggered. -/
def World.mapEvent (w : World) (f : Event → Event) : World :=
  { w with scene := w.scene.map fun s => { s with triggerEvent := s.triggerEvent.map f } }

/-- Writes fields of the event that has been triggered. -/
def modifyEvent (f : Event → Event) : Run Unit := modify fun w => w.mapEvent f

/-- The event that has been triggered, if the entity is a member of the scene and the event is the one
asked for, of this category and not accomplished yet. -/
def World.openEvent (w : World) (e eventid : ℤ) (category : EventCategory) : Option Event :=
  w.scene.bind fun s =>
    if e ∉ s.members then none
    else s.triggerEvent.filter fun event =>
      event.id = eventid ∧ event.category = category ∧ event.accomplish = false

/-- The beginning of a request at an event: its arguments from the content of the event, nothing if the
request is refused; `f` names the assertions. -/
def touchEvent {α : Type} (e eventid : ℤ) (category : EventCategory) (f : Func) (args : Content → Option α) :
    Run (Option α) := do
  match (← get).openEvent e eventid category with
  | none => return none
  | some event =>
    match event.content.bind args with
    | none => throw (.assertion f)
    | some a =>
      modifyEvent fun event => { event with touch := true }
      return some a

/-- The event that has been triggered has been touched. -/
def World.touched (w : World) : World := w.mapEvent fun event => { event with touch := true }

/-- The arguments of a request at an event, if it is not refused at once. -/
def World.eventArgs {α : Type} (w : World) (e eventid : ℤ) (category : EventCategory) (args : Content → Option α) :
    Option α :=
  (w.openEvent e eventid category).bind fun event => event.content.bind args

open Raising in
/-- A request goes on with the event touched, or it ends at once. -/
theorem wp_touchEvent {α : Type} {e eventid : ℤ} {category : EventCategory} {f : Func} {args : Content → Option α}
    {w : World} {Q : Option α → World → Prop} {E : Fault → World → Prop}
    (hnone : w.eventArgs e eventid category args = none → Q none w ∧ E (.assertion f) w)
    (hsome : ∀ a, w.eventArgs e eventid category args = some a → Q (some a) w.touched) :
    wp (touchEvent e eventid category f args) Q E w := by
  rw [touchEvent, wp_bind, wp_get]
  rw [World.eventArgs] at hnone hsome
  split
  · rename_i hopen
    rw [hopen] at hnone
    exact (hnone rfl).1
  · rename_i event hopen
    rw [hopen, Option.bind_some] at hnone hsome
    split
    · rename_i hargs
      exact (hnone hargs).2
    · rename_i a hargs
      exact hsome a hargs

/-- `Scene:dispatch_event` and `Scene:take_event_content` for a shop that has been used: the client is
told about all that it sells. -/
def dispatchShop (env : Env) (shop : Shop) : Run Unit := do
  modifyEvent fun event => { event with trigger := true }
  (shop.cards.getD []).forM fun baseid => do
    if (env.cardTable baseid).isNone then throw .indexNil
  (shop.items.getD []).forM fun baseid => do
    if (env.itemTable baseid).isNone then throw .indexNil

/-! ### The exchanges of an entity -/

/-- How many items of a kind an entity has in its pack. -/
def World.itemCount (w : World) (e baseid : ℤ) : ℤ :=
  (((w.pack e).items.filter fun i => (w.itemAt i).baseid = baseid).map fun i => (w.itemAt i).number).sum

/-- `Entity:purchase_card`. -/
def purchaseCard (env : Env) (e baseid : ℤ) (shop : Shop) : Run Bool := do
  let w ← get
  if (w.entityAt e).death then return false
  if baseid ∉ shop.cards.getD [] then return false
  match (env.cardTable baseid).bind CardBase.priceGold with
  | none => return false
  | some price =>
    if (w.pack e).gold < price then return false
    if (w.entityAt e).base.maxCards ≤ (w.pack e).cards.length then return false
    addGold e (-price)
    discard <| addCard env e baseid
    return true

/-- `Entity:purchase_item`. The log of a refused base id formats it as a number. -/
def purchaseItem (env : Env) (e : ℤ) (baseid : Option ℤ) (shop : Shop) : Run Bool := do
  let w ← get
  if (w.entityAt e).death then return false
  match shop.items, baseid with
  | none, _ => return false
  | some _, none => throw .formatNil
  | some items, some baseid =>
    if baseid ∉ items then return false
    match (env.itemTable baseid).bind ItemBase.priceGold with
    | none => return false
    | some price =>
      if (w.pack e).gold < price then return false
      if (w.entityAt e).base.maxPackSlots ≤ (w.pack e).items.length then return false
      addGold e (-price)
      addItem env e baseid 1
      return true

/-- `Entity:destroy_card`. -/
def destroyCard (e c : ℤ) (args : Price) : Run Bool := do
  let w ← get
  if (w.entityAt e).death then return false
  match args.priceGold with
  | none => return false
  | some price =>
    if c ∉ (w.pack e).cards then return false
    if (w.pack e).gold < price then return false
    addGold e (-price)
    removeCard e c
    return true

/-- `Entity:levelup_card`. The price is compared with the gold and never taken. -/
def levelupCard (env : Env) (e c : ℤ) (args : Price) : Run Bool := do
  let w ← get
  if (w.entityAt e).death then return false
  match args.priceGold with
  | none => return false
  | some price =>
    if c ∉ (w.pack e).cards then return false
    if (w.pack e).gold < price then return false
    match (w.cardAt c).base.levelupBaseid with
    | none => return false
    | some baseid =>
      if baseid = 0 then return false
      if (env.cardTable baseid).isNone then return false
      removeCard e c
      discard <| addCard env e baseid
      return true

/-- `Entity:levelup_puppet`, up to the call of `retrieve_placeholder`, which is nil. -/
def levelupPuppet (env : Env) (e target : ℤ) (args : Price) : Run Bool := do
  let w ← get
  if (w.entityAt e).death then return false
  match args.priceGold with
  | none => return false
  | some price =>
    if target ∉ (w.pack e).puppets then return false
    match (w.entityAt target).base.levelupBaseid with
    | none => return false
    | some baseid =>
      if baseid = 0 then return false
      if (env.entityTable baseid).isNone then return false
      if (w.pack e).gold < price then return false
      addGold e (-price)
      throw .callNil

/-! ### The requests of a scene -/

/-- The common body of the requests at an event, with the function of the entity that they call. -/
def atEvent {α : Type} (e eventid : ℤ) (category : EventCategory) (f : Func) (args : Content → Option α)
    (request : α → Run Bool) : Run Bool := do
  match ← touchEvent e eventid category f args with
  | none => return false
  | some a => request a

/-- A purchase is followed by a report of the shop if it succeeds. -/
def reported (env : Env) (purchase : Shop → Run Bool) (shop : Shop) : Run Bool := do
  let rc ← purchase shop
  if rc then dispatchShop env shop
  return rc

/-- `Scene:purchase_card`. -/
def scenePurchaseCard (env : Env) (e eventid baseid : ℤ) : Run Bool :=
  atEvent e eventid .shopBuyCard .purchase Content.shop (reported env (purchaseCard env e baseid))

/-- `Scene:purchase_item`. Whatever item is asked for, it passes on `card_baseid`, which is nil. -/
def scenePurchaseItem (env : Env) (e eventid _baseid : ℤ) : Run Bool :=
  atEvent e eventid .shopBuyCard .purchase Content.shop (reported env (purchaseItem env e none))

/-- `Scene:destroy_card`. -/
def sceneDestroyCard (e eventid c : ℤ) : Run Bool :=
  atEvent e eventid .shopDestroyCard .destroyCard Content.destroyCard (destroyCard e c)

/-- `Scene:levelup_card`. -/
def sceneLevelupCard (env : Env) (e eventid c : ℤ) : Run Bool :=
  atEvent e eventid .shopLevelupCard .levelupCard Content.levelupCard (levelupCard env e c)

/-- `Scene:levelup_puppet`. -/
def sceneLevelupPuppet (env : Env) (e eventid target : ℤ) : Run Bool :=
  atEvent e eventid .shopLevelupPuppet .levelupPuppet Content.levelupPuppet (levelupPuppet env e target)

/-! ### Rewards -/

/-- `t[index]` for an array, whose first index is 1. -/
def luaIndex {α : Type} (l : List α) (index : ℤ) : Option α :=
  if 1 ≤ index then l[(index - 1).toNat]? else none

/-- The indices of an array. -/
def luaKeys {α : Type} (l : List α) : List ℤ := (List.range l.length).map fun i => (i : ℤ) + 1

/-- The array that is filled again from `l` without its element at `index`. -/
def Env.leftover {α : Type} (env : Env) (l : List α) (index : ℤ) : List α :=
  (env.pairs ((luaKeys l).filter fun i => i ≠ index)).filterMap (luaIndex l)

/-- `reward_cards` of `Entity:event_reward`. -/
def rewardCards (env : Env) (e : ℤ) (cards : List ℤ) (entry : ℤ) : Run Bool := do
  match luaIndex cards entry with
  | none => return false
  | some baseid =>
    if (env.cardTable baseid).isNone then return false
    let w ← get
    if (w.entityAt e).base.maxCards ≤ (w.pack e).cards.length then return false
    discard <| addCard env e baseid
    return true

/-- The loop of `reward_items`: it grants one base id after the other and stops at the first that it
cannot grant. -/
def rewardItemsLoop (env : Env) (e : ℤ) : List (ℤ × ℤ) → Run Bool
  | [] => return true
  | (baseid, number) :: entries => do
    if (env.itemTable baseid).isNone then return false
    let w ← get
    if (w.entityAt e).base.maxPackSlots ≤ (w.pack e).items.length then return false
    addItem env e baseid number
    rewardItemsLoop env e entries

/-- `reward_items` of `Entity:event_reward`. -/
def rewardItems (env : Env) (e : ℤ) (items : List ItemsEntry) (entry : ℤ) : Run Bool := do
  match luaIndex items entry with
  | none => return false
  | some .other => return false
  | some (.table numbers) =>
    if numbers.length = 0 then return false
    rewardItemsLoop env e (env.entries numbers)

/-- `reward_puppets` of `Entity:event_reward`. -/
def rewardPuppets (env : Env) (fuel : ℕ) (e : ℤ) (puppets : List ℤ) (entry : ℤ) : Run Bool := do
  match luaIndex puppets entry with
  | none => return false
  | some baseid =>
    if (env.entityTable baseid).isNone then return false
    let w ← get
    if (w.entityAt e).base.maxPuppets ≤ (w.pack e).puppets.length then return false
    discard <| addPuppet env fuel e baseid
    return true

/-- `Entity:event_reward`. A reward of several kinds counts as one of the first of them. -/
def eventReward (env : Env) (fuel : ℕ) (e : ℤ) (rewards : List Reward) (index entry : ℤ) : Run Bool := do
  if ((← get).entityAt e).death then return false
  match luaIndex rewards index with
  | none => return false
  | some { cards := some cards, .. } => rewardCards env e cards entry
  | some { cards := none, items := some items, .. } => rewardItems env e items entry
  | some { cards := none, items := none, gold := some gold, .. } =>
    addGold e gold
    return true
  | some { cards := none, items := none, gold := none, puppets := some puppets } =>
    rewardPuppets env fuel e puppets entry
  | some { cards := none, items := none, gold := none, puppets := none } => return false

/-- A reward that has been claimed is taken from the list, and the client is told about the rest. -/
def removeReward (env : Env) (rewards : List Reward) (index : ℤ) : Run Unit := do
  assertion (luaIndex rewards index).isSome .eventReward
  let left := env.leftover rewards index
  modifyEvent fun event => { event with content := event.content.map fun c => { c with reward := some left } }
  if 0 < left.length then modifyEvent fun event => { event with trigger := true }

/-- `Scene:event_reward`. -/
def sceneEventReward (env : Env) (fuel : ℕ) (e eventid index entry : ℤ) : Run Bool :=
  atEvent e eventid .reward .eventReward Content.reward fun rewards => do
    let rc ← eventReward env fuel e rewards index entry
    if rc then removeReward env rewards index
    return rc

end Slam.Game
