import Slam.Lib.Raising

/-!
# The game logic: its objects

The scripts under `common/scripts/v1` keep the state of one copy (a dungeon run) in Lua objects that
refer to each other: entities, their packs, cards, items and buffs, the scene of the copy and the
match fought in it. `World` is this heap. Objects are found by their identifiers, a Lua table that
maps identifiers to objects is the list of its keys, and the order in which `pairs` visits them is
left open (`Env.pairs`).

A function of the scripts is a program over the world that may raise (`Run`): the host calls every
entry point under `lua_pcall`, so an error ends the call and what it has done so far stays done.
Rows of the tables, the scripts that cards, buffs and items name in their rows, and the order of
`pairs` are parameters (`Env`). A script does a list of `Act`s, each of which calls back into the
logic. The list is a function of the world in which the script starts: what a script reads on its
way follows from that world, so this is no restriction.

Fields marked as ghost are not in the source: they record what a run did, and no function reads
them.
-/

namespace Slam.Game

/-! ### Enumerations of `common.lua` -/

inductive Side
  | allies
  | enemy
  deriving DecidableEq, Inhabited

/-- The opponents of a side. -/
def Side.other : Side → Side
  | .allies => .enemy
  | .enemy => .allies

inductive CardCategory
  | none | aggressive | spell | ability | dummy | curse | equipment | puppet
  deriving DecidableEq, Inhabited

inductive CardTargetType
  | none | pickSingleAllies | pickSingleEnemy | self | selfPuppet | alliesAll | alliesPuppetAll
  | enemyAll | enemyPuppetAll | enemyRandom | alliesRandom | all
  deriving DecidableEq, Inhabited

inductive CardDamageType
  | none | physical | spell
  deriving DecidableEq, Inhabited

inductive ItemCategory
  | none | usable | equipable | material
  deriving DecidableEq, Inhabited

inductive EventCategory
  | none | entry | exit | monster | shopBuyCard | shopDestroyCard | story | shopLevelupCard
  | storyOption | reward | shopLevelupPuppet
  deriving DecidableEq, Inhabited

inductive EventEnd
  | none | trigger | reward
  deriving DecidableEq, Inhabited

inductive BreakPoint
  | roundBeginA | roundBeginZ | cardDealA | cardDealZ | cardPlayA | cardPlayZ | cardDiscardA
  | cardDiscardZ | roundEndA | roundEndZ | buffAddA | buffAddZ | buffRemoveA | buffRemoveZ
  | entitySufferDamage
  deriving DecidableEq, Inhabited

inductive Span
  | none | global | copy | match
  deriving DecidableEq, Inhabited

/-- The number behind a span, by which `Pack:delivery` compares them. -/
def Span.value : Span → ℕ
  | .none => 0
  | .global => 9
  | .copy => 5
  | .match => 1

/-- `Placeholder.NONE`, `FRONT`, `MIDDLE` and `BACK`. Clients send them as numbers. -/
def Placeholder.none : ℤ := 0
def Placeholder.front : ℤ := 1
def Placeholder.middle : ℤ := 2
def Placeholder.back : ℤ := 3

/-! ### Rows of the tables -/

/-- The name of a script function; a row whose function does not exist has none. -/
abbrev ScriptFunc := ℕ

/-- A row of the Card table. -/
structure CardBase where
  category : CardCategory := .none
  levelupBaseid : Option ℤ := some 0
  requireCareer : ℤ := 0
  enablePlay : Bool := true
  enableDiscard : Bool := true
  enableScript : Bool := false
  costMp : ℤ := 0
  resumeMp : Option ℤ := some 0
  settleTimes : ℤ := 1
  requireTarget : CardTargetType := .none
  damageType : CardDamageType := .none
  damageValue : ℤ := 0
  effectHp : ℤ := 0
  effectMp : ℤ := 0
  effectStrength : ℤ := 0
  effectArmor : ℤ := 0
  effectShield : ℤ := 0
  effectBuff : Option (List (ℤ × ℤ)) := some []
  drawStackdeal : ℤ := 0
  drawStackdiscard : ℤ := 0
  drawStackexhaust : ℤ := 0
  shuffleStackdiscard : Bool := false
  shuffleStackexhaust : Bool := false
  intoStackdiscard : Bool := true
  intoStackexhaust : Bool := false
  priceGold : Option ℤ := some 100
  scriptFunc : Option ScriptFunc := some 0
  deriving Inhabited

/-- A row of the Item table. -/
structure ItemBase where
  category : ItemCategory := .none
  maxOverlap : ℤ := 1
  consumableTimes : ℤ := 0
  span : Span := .none
  priceGold : Option ℤ := some 100
  scriptFunc : Option ScriptFunc := some 0
  deriving Inhabited

/-- A row of the Buff table. -/
structure BuffBase where
  span : Span := .none
  maxLayers : ℤ := 999
  enableNegativeLayer : Bool := false
  layerValue : Option ℚ := none
  enableScript : Bool := false
  scriptFunc : Option ScriptFunc := some 0
  params : List ℤ := []
  deriving Inhabited

/-- A row of the Entity table. `init_puppets` gives each puppet its placeholder. -/
structure EntityBase where
  career : ℤ := 1
  isMonster : Bool := false
  levelupBaseid : Option ℤ := some 0
  inithp : ℤ := 99
  maxhp : ℤ := 99
  roundMp : ℤ := 2
  strength : ℤ := 0
  armor : ℤ := 0
  shield : ℤ := 0
  initGold : ℤ := 100
  initCards : List ℤ := []
  maxCards : ℤ := 100
  initBuffs : List (ℤ × ℤ) := []
  initItems : List (ℤ × ℤ) := []
  initPuppets : List (ℤ × ℤ) := []
  roundCards : ℤ := 3
  maxHoldCards : ℤ := 0
  maxPuppets : ℤ := 0
  maxPackSlots : ℤ := 99
  maxEquipSlots : ℤ := 10
  deriving Inhabited

/-! ### Objects -/

/-- `Card`; `base` is the card's own copy of its row. -/
structure Card where
  baseid : ℤ
  base : CardBase
  deriving Inhabited

/-- `Item`. -/
structure Item where
  baseid : ℤ
  base : ItemBase
  number : ℤ
  useTimes : ℤ
  deriving Inhabited

/-- `Buff`; `entity` is the entity that carries it. -/
structure Buff where
  entity : ℤ
  baseid : ℤ
  base : BuffBase
  layers : ℤ
  deriving Inhabited

/-- `Pack`. The tables of cards, items, puppets and buffs are lists of keys, `equips` and
`placeholders` map slots to items and entities. -/
structure Pack where
  span : Span := .copy
  hp : ℤ := 0
  mp : ℤ := 0
  maxhp : ℤ := 0
  roundMp : ℤ := 0
  strength : ℤ := 0
  armor : ℤ := 0
  shield : ℤ := 0
  roundCards : ℤ := 0
  maxHoldCards : ℤ := 0
  stackDeal : List ℤ := []
  stackDiscard : List ℤ := []
  stackExhaust : List ℤ := []
  stackHold : List ℤ := []
  gold : ℤ := 0
  cards : List ℤ := []
  items : List ℤ := []
  equips : List (ℤ × ℤ) := []
  puppets : List ℤ := []
  placeholders : List (ℤ × ℤ) := []
  buffs : List ℤ := []
  -- Ghost: the cards dealt by `enter_match` and made by `stack_hold_newone`, those that have left
  -- the hand and are not filed yet, and those destroyed by play or discard.
  dealt : List ℤ := []
  newones : List ℤ := []
  settling : List ℤ := []
  destroyed : List ℤ := []
  deriving Inhabited

/-- `Entity`; `seed` is the state of its `random_func`, `backup` is `__pack`, and an entity that is freed
has been destructed, so that its pack is nil. -/
structure Entity where
  baseid : ℤ := 0
  base : EntityBase := {}
  master : Option ℤ := none
  side : Side := .allies
  death : Bool := false
  freed : Bool := false
  seed : ℤ := 0
  pack : Pack := {}
  backup : Option Pack := none
  deriving Inhabited

/-- `Match`; the round fields are nil until `init_round_list`. -/
structure Match where
  sideVictory : Option Side := none
  isdone : Bool := false
  isstart : Bool := false
  entities : List ℤ := []
  roundTotal : ℤ := 0
  roundEntityid : Option ℤ := none
  roundIterator : Option ℕ := none
  roundList : List ℤ := []
  roundListSize : Option ℕ := none
  deriving Inhabited

/-- An entry of `reward.items`: a table of numbers by base id, or something else. -/
inductive ItemsEntry
  | table (numbers : List (ℤ × ℤ))
  | other

/-- An element of `event.content.reward`. -/
structure Reward where
  cards : Option (List ℤ) := none
  items : Option (List ItemsEntry) := none
  gold : Option ℤ := none
  puppets : Option (List ℤ) := none

/-- The arguments of a shop: the base ids of `cards` and `items`. -/
structure Shop where
  cards : Option (List ℤ) := none
  items : Option (List ℤ) := none

/-- The arguments of a shop that destroys or levels up. -/
structure Price where
  priceGold : Option ℤ := none

/-- `event.content`. -/
structure Content where
  monster : Option (List (ℤ × ℤ)) := none
  reward : Option (List Reward) := none
  shop : Option Shop := none
  destroyCard : Option Price := none
  levelupCard : Option Price := none
  levelupPuppet : Option Price := none

/-- `Event`. -/
structure Event where
  id : ℤ
  baseid : ℤ := 0
  category : EventCategory
  endtype : EventEnd := .none
  content : Option Content := none
  trigger : Bool := false
  touch : Bool := false
  accomplish : Bool := false

/-- `Scene`: its members, the event that has been triggered and the match fought in it. -/
structure Scene where
  id : ℤ := 0
  members : List ℤ := []
  triggerEvent : Option Event := none
  sceneMatch : Option Match := none

/-! ### The world -/

/-- Calls of the host that keep the client's copy of the pack. The other calls of the host report
what happened and return nothing. -/
inductive ClientCall
  | bagAddCard (entity card : ℤ)
  | bagRemoveCard (entity card : ℤ)
  | bagAddItem (entity item : ℤ)
  | bagRemoveItem (entity item : ℤ)
  | bagSetItemNumber (entity item number : ℤ)
  | equipBarAdd (entity slot item : ℤ)
  | equipBarRemove (entity slot : ℤ)
  | bagAddPuppet (entity puppet : ℤ)
  | bagRemovePuppet (entity puppet : ℤ)
  | bagArrangePlaceholder (entity target slot : ℤ)
  | bagSetGold (entity gold old : ℤ)
  | bagClearCard (entity : ℤ)
  | bagClearItem (entity : ℤ)
  | bagClearPuppet (entity : ℤ)
  | bagClearEquip (entity : ℤ)
  deriving DecidableEq

/-- Ghost: what a run records about deaths and turns. `died`: `to_die` of a living entity; it is late
if there is a match that is done already or that the entity is not in. `turnEnd`: `Match.round_end`
hands over the turn of the entity; it is stale if the match is done or it is no longer its turn.
`roundBegin`: `round_begin` is called, with the entities of the round list dead at that moment and
whether the match is done. -/
inductive Record
  | died (entity : ℤ) (late : Bool)
  | turnEnd (entity : ℤ) (stale : Bool)
  | roundBegin (entity : ℤ) (dead : List ℤ) (isdone : Bool)
  deriving DecidableEq

/-- The objects of the copy `g_copy` and its scene. -/
structure World where
  entityAt : ℤ → Entity := fun _ => {}
  cardAt : ℤ → Card := fun _ => default
  itemAt : ℤ → Item := fun _ => default
  buffAt : ℤ → Buff := fun _ => default
  -- The counters behind `cc.EntityNew`, `cc.CardNew`, `cc.ItemNew` and `cc.BuffAdd`.
  nextEntity : ℤ := 0
  nextCard : ℤ := 0
  nextItem : ℤ := 0
  nextBuff : ℤ := 0
  copySet : Bool := true
  entityMaster : Option ℤ := none
  copyMembers : List ℤ := []
  scene : Option Scene := none
  sent : List ClientCall := []
  -- Ghost: what happened, the entities between `CARD_PLAY_A` or `CARD_DISCARD_A` and the moment the
  -- card leaves the hand, and whether the stacks of one of them have been used then.
  trace : List Record := []
  locked : List ℤ := []
  early : Bool := false

/-- Functions of the source, to name where an assertion stands. -/
inductive Func
  | cardNew | itemNew | buffNew | entityNew | packInit | delivery | enterMatch | exitMatch
  | maxhpAdd | mpAdd | strengthAdd | armorAdd | shieldAdd | addGold
  | stackDealInsert | stackDealRemove | stackDiscardInsert | stackDiscardRemove
  | stackExhaustInsert | stackExhaustRemove | stackHoldInsert | stackHoldRemove
  | cardDeal | cardDealPick | cardDraw | buffAdd | buffRemove | addBuff
  | addCard | removeCard | addItem | removeItem | addEquip | removeEquip | addPuppet
  | arrangePlaceholder | roundBegin | cardPlayJudge | cardDiscardJudge | useItem
  | initRoundList | nextRoundEntity | addMember | addMonster | prepare | start | abort | done
  | matchCardPlay | matchCardDiscard | roundEnd | dieEntity | matchUpdate | monsterUpdate
  | prepareMatch | startMatch | endMatch | abortMatch
  | eventReward | purchase | destroyCard | levelupCard | levelupPuppet | dispatchEvent
  | setDiscount | unserialize
  deriving DecidableEq

/-- How a call ends without returning: an assertion of the logic, an operation Lua refuses (an index
into nil, a call of nil, a comparison or arithmetic on nil, a format of nil), an error a script
raises, or no end within the fuel of the model. -/
inductive Fault
  | assertion (f : Func)
  | indexNil
  | callNil
  | arithNil
  | formatNil
  | script
  | timeout
  deriving DecidableEq

/-- Programs of the logic. -/
abbrev Run := EStateM Fault World

/-- What a script may do: the methods of `Entity`, `Card` and `Buff` and the functions of `Actions`
and `MatchUtil` that scripts call, on any entity, or raise an error. `setField` stands for
`Card:set_field` and `reset_field`, which write a card's own copy of its row. -/
inductive Act
  | hpAdd (entity value : ℤ)
  | maxhpAdd (entity value : ℤ)
  | mpAdd (entity value : ℤ)
  | strengthAdd (entity value : ℤ)
  | armorAdd (entity value : ℤ)
  | shieldAdd (entity value : ℤ)
  | addGold (entity value : ℤ)
  | buffAdd (entity baseid layers : ℤ)
  | buffRemove (entity buff : ℤ)
  | modifyLayers (buff layers : ℤ)
  | cardDeal (entity : ℤ)
  | drawFromStackdeal (entity number : ℤ)
  | drawFromStackdiscard (entity number : ℤ)
  | drawFromStackexhaust (entity number : ℤ)
  | shuffleStackdiscard (entity : ℤ)
  | shuffleStackexhaust (entity : ℤ)
  | stackHoldNewone (entity baseid : ℤ)
  | cardPlay (entity card : ℤ) (pick : Option ℤ)
  | cardDiscard (entity card : ℤ) (passive : Bool)
  | roundEnd (entity : ℤ)
  | setField (card : ℤ) (base : CardBase)
  | addCard (entity baseid : ℤ)
  | addItem (entity baseid number : ℤ)
  | damageOne (who attack : ℤ) (damageType : CardDamageType)
  | useCard (player card : ℤ) (pick : Option ℤ)
  | raise

/-- The arguments of a call of a card's or buff's script. A breakpoint may be nil: `hp_add`,
`buff_add` and `buff_remove` pass the globals `ENTITY_SUFFER_DAMAGE`, `BUFF_ADD_A` and so on, which
are only defined as fields of `BreakPoint`. -/
structure ScriptCall where
  entity : ℤ
  card : Option ℤ
  buff : Option ℤ
  pick : Option ℤ
  bp : Option BreakPoint
  deriving DecidableEq

/-- The tables, the scripts, the order of `pairs` and the time at which an entity is made. -/
structure Env where
  cardTable : ℤ → Option CardBase
  itemTable : ℤ → Option ItemBase
  buffTable : ℤ → Option BuffBase
  entityTable : ℤ → Option EntityBase
  script : ScriptFunc → ScriptCall → World → List Act
  itemScript : ScriptFunc → ℤ → ℤ → World → List Act
  birth : ℤ → ℤ := fun _ => 0
  pairs : List ℤ → List ℤ
  pairs_perm : ∀ keys, (pairs keys).Perm keys

theorem Env.mem_pairs (env : Env) {keys : List ℤ} {k : ℤ} : k ∈ env.pairs keys ↔ k ∈ keys :=
  (env.pairs_perm keys).mem_iff

theorem Env.length_pairs (env : Env) (keys : List ℤ) : (env.pairs keys).length = keys.length :=
  (env.pairs_perm keys).length_eq

/-- Rows with the default values for some cards, items, buffs and entities, and scripts that do
nothing. -/
def plainEnv : Env where
  cardTable _ := some {}
  itemTable _ := some {}
  buffTable _ := some {}
  entityTable _ := some {}
  script _ _ _ := []
  itemScript _ _ _ _ := []
  pairs := id
  pairs_perm _ := .refl _

/-! ### Reading and writing the world -/

namespace World

def pack (w : World) (e : ℤ) : Pack := (w.entityAt e).pack

/-- `copy.scene.match`, nil if there is no scene. -/
def sceneMatch (w : World) : Option Match := w.scene.bind Scene.sceneMatch

/-- The world with fields of its match rewritten. -/
def mapMatch (w : World) (f : Match → Match) : World :=
  { w with scene := w.scene.map fun s => { s with sceneMatch := s.sceneMatch.map f } }

@[simp] theorem sceneMatch_mapMatch (w : World) (f : Match → Match) :
    (w.mapMatch f).sceneMatch = w.sceneMatch.map f := by
  rw [sceneMatch, sceneMatch, mapMatch]
  cases w.scene <;> rfl

def setEntity (w : World) (e : ℤ) (x : Entity) : World :=
  { w with entityAt := Function.update w.entityAt e x }

def setPack (w : World) (e : ℤ) (p : Pack) : World :=
  w.setEntity e { w.entityAt e with pack := p }

def setCard (w : World) (c : ℤ) (x : Card) : World :=
  { w with cardAt := Function.update w.cardAt c x }

def setItem (w : World) (i : ℤ) (x : Item) : World :=
  { w with itemAt := Function.update w.itemAt i x }

def setBuff (w : World) (b : ℤ) (x : Buff) : World :=
  { w with buffAt := Function.update w.buffAt b x }

/-- The world after calls of the host. -/
def tell (w : World) (calls : List ClientCall) : World := { w with sent := w.sent ++ calls }

/-- Ghost: the world with more recorded. -/
def note (w : World) (records : List Record) : World := { w with trace := w.trace ++ records }

@[simp] theorem note_note (w : World) (rs rs' : List Record) : (w.note rs).note rs' = w.note (rs ++ rs') := by
  simp [note]

@[simp] theorem sceneMatch_note (w : World) (rs : List Record) : (w.note rs).sceneMatch = w.sceneMatch := rfl

@[simp] theorem entityAt_note (w : World) (rs : List Record) : (w.note rs).entityAt = w.entityAt := rfl

@[simp] theorem pack_note (w : World) (rs : List Record) (e : ℤ) : (w.note rs).pack e = w.pack e := rfl

@[simp] theorem entityAt_setEntity_self (w : World) (e : ℤ) (x : Entity) :
    (w.setEntity e x).entityAt e = x := Function.update_self ..

theorem entityAt_setEntity_of_ne (w : World) {e i : ℤ} (h : i ≠ e) (x : Entity) :
    (w.setEntity e x).entityAt i = w.entityAt i := Function.update_of_ne h ..

@[simp] theorem buffAt_setBuff_self (w : World) (b : ℤ) (x : Buff) : (w.setBuff b x).buffAt b = x := by
  simp [setBuff]

theorem buffAt_setBuff_of_ne (w : World) {b i : ℤ} (h : i ≠ b) (x : Buff) : (w.setBuff b x).buffAt i = w.buffAt i := by
  simp [setBuff, h]

@[simp] theorem pack_setPack_self (w : World) (e : ℤ) (p : Pack) : (w.setPack e p).pack e = p := by
  simp [pack, setPack]

theorem pack_setPack_of_ne (w : World) {e i : ℤ} (h : i ≠ e) (p : Pack) :
    (w.setPack e p).pack i = w.pack i := by
  rw [pack, setPack, entityAt_setEntity_of_ne w h, pack]

/-- An entity after its own or another entity's pack has been replaced: only its pack may change. -/
theorem entityAt_setPack (w : World) (e i : ℤ) (p : Pack) :
    (w.setPack e p).entityAt i = { w.entityAt i with pack := if i = e then p else w.pack i } := by
  by_cases h : i = e
  · subst h
    simp [setPack]
  · rw [setPack, entityAt_setEntity_of_ne w h, if_neg h, pack]

theorem pack_setPack (w : World) (e i : ℤ) (p : Pack) :
    (w.setPack e p).pack i = if i = e then p else w.pack i := by
  rw [pack, entityAt_setPack]

@[simp] theorem setPack_setPack (w : World) (e : ℤ) (p q : Pack) :
    (w.setPack e p).setPack e q = w.setPack e q := by
  simp [setPack, setEntity]

@[simp] theorem tell_tell (w : World) (calls calls' : List ClientCall) :
    (w.tell calls).tell calls' = w.tell (calls ++ calls') := by
  simp [tell]

@[simp] theorem pack_tell (w : World) (calls : List ClientCall) (e : ℤ) : (w.tell calls).pack e = w.pack e := rfl

@[simp] theorem setPack_tell (w : World) (calls : List ClientCall) (e : ℤ) (p : Pack) :
    (w.tell calls).setPack e p = (w.setPack e p).tell calls := rfl

@[simp] theorem sceneMatch_setPack (w : World) (e : ℤ) (p : Pack) :
    (w.setPack e p).sceneMatch = w.sceneMatch := rfl

@[simp] theorem death_setPack (w : World) (e i : ℤ) (p : Pack) :
    ((w.setPack e p).entityAt i).death = (w.entityAt i).death := by rw [entityAt_setPack]

@[simp] theorem side_setPack (w : World) (e i : ℤ) (p : Pack) :
    ((w.setPack e p).entityAt i).side = (w.entityAt i).side := by rw [entityAt_setPack]

@[simp] theorem backup_setPack (w : World) (e i : ℤ) (p : Pack) :
    ((w.setPack e p).entityAt i).backup = (w.entityAt i).backup := by rw [entityAt_setPack]

end World

/-- `assert(p)` in function `f`. -/
def assertion (p : Prop) [Decidable p] (f : Func) : Run Unit :=
  if p then pure () else throw (.assertion f)

/-- The pack of an entity. -/
def getPack (e : ℤ) : Run Pack := return (← get).pack e

/-- Writes fields of the pack of an entity. -/
def modifyPack (e : ℤ) (f : Pack → Pack) : Run Unit := modify fun w => w.setPack e (f (w.pack e))

/-- Writes fields of an entity. -/
def modifyEntity (e : ℤ) (f : Entity → Entity) : Run Unit :=
  modify fun w => w.setEntity e (f (w.entityAt e))

/-- A call of the host that reaches the client. -/
def notify (c : ClientCall) : Run Unit := modify fun w => { w with sent := w.sent ++ [c] }

/-- Ghost: records what happened. -/
def record (r : Record) : Run Unit := modify fun w => w.note [r]

/-- `scene.match`, where the code indexes it. -/
def getMatch : Run Match := do
  match (← get).sceneMatch with
  | some m => return m
  | none => throw .indexNil

/-- Writes fields of the match. -/
def modifyMatch (f : Match → Match) : Run Unit := modify fun w => w.mapMatch f

section Rules

open Raising

variable {Q : Unit → World → Prop} {E : Fault → World → Prop} {w : World}

@[simp] theorem wp_assertion (p : Prop) [Decidable p] (f : Func) :
    wp (assertion p f) Q E w ↔ (p → Q () w) ∧ (¬ p → E (.assertion f) w) := by
  simp [assertion]

theorem assertion_apply {p : Prop} [Decidable p] (h : p) (f : Func) : assertion p f w = .ok () w := by
  rw [assertion, if_pos h]
  rfl

theorem assertion_error {p : Prop} [Decidable p] (h : ¬ p) (f : Func) :
    assertion p f w = .error (.assertion f) w := by
  rw [assertion, if_neg h]
  rfl

@[simp] theorem wp_getPack {Q : Pack → World → Prop} (e : ℤ) :
    wp (getPack e) Q E w ↔ Q (w.pack e) w := by
  simp [getPack]

@[simp] theorem wp_modifyPack (e : ℤ) (f : Pack → Pack) :
    wp (modifyPack e f) Q E w ↔ Q () (w.setPack e (f (w.pack e))) := Iff.rfl

@[simp] theorem wp_modifyEntity (e : ℤ) (f : Entity → Entity) :
    wp (modifyEntity e f) Q E w ↔ Q () (w.setEntity e (f (w.entityAt e))) := Iff.rfl

@[simp] theorem wp_notify (c : ClientCall) :
    wp (notify c) Q E w ↔ Q () { w with sent := w.sent ++ [c] } := Iff.rfl

theorem wp_notify_tell (c : ClientCall) : wp (notify c) Q E w ↔ Q () (w.tell [c]) := Iff.rfl

@[simp] theorem wp_record (r : Record) :
    wp (record r) Q E w ↔ Q () (w.note [r]) := Iff.rfl

theorem wp_getMatch {Q : Match → World → Prop} :
    wp getMatch Q E w ↔ (∀ m, w.sceneMatch = some m → Q m w) ∧
      (w.sceneMatch = none → E .indexNil w) := by
  rw [getMatch, wp_bind, wp_get]
  cases w.sceneMatch <;> simp

@[simp] theorem wp_modifyMatch (f : Match → Match) :
    wp (modifyMatch f) Q E w ↔ Q () (w.mapMatch f) := Iff.rfl

end Rules

end Slam.Game
