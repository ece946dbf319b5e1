import Slam.Random.Sampling
import Slam.Lib.TwoRuns

/-!
# `modules/eventscript.lua`: the content of events

The function of an event is called with a seed and makes a random function of its own from it. Where it passes
that function on, what it picks depends on the seed. Where it does not, `Random.pickRandom` falls back to
`math.random`: `pickReward` and its kin do so for the items, and `pickShop` for everything, since the name it
passes has never been given a value. The lists picked from there happen to have one entry, or equal ones, so
that the content does not depend on `math.random` after all (`pick_alike`).
-/

namespace Slam.Random

open TwoRuns

/-- The entries of `copyconfig.lua`. -/
def shopItemSlot : ℕ := 6

def shopCardSlot : ℕ := 6

def monterLootCardSlot : ℕ := 3

def eliteGropuProb : ℚ := 1 / 2

/-- `math.random`, whose state is the numbers it will come up with. -/
def mathRandom : RandomFunc (ℕ → ℕ) where
  draw m s := (s 0 % m + 1, fun i => s (i + 1))
  mem m s hm := by
    have hmod := Nat.mod_lt (s 0) hm
    omega

/-- What a script draws from: the seed of its own random function, and `math.random`. -/
structure Dice where
  seed : ℤ
  math : ℕ → ℕ

/-- A script. It fails where Lua raises an error. -/
abbrev Draws := StateT Dice Option

/-- A `random_func` argument: the script's own function, or nil. -/
inductive RandomArg where
  | own
  | omitted
  deriving DecidableEq

/-- The integer that was drawn from a proper interval. -/
def Drawn.toInt {ν : Type} : Drawn ν → ℤ
  | integer n => n
  | real _ => 0

variable {α ν : Type} (A : Arithmetic ν)

/-- `random_func = Random.newRandom(randomseed)` -/
def seeded (randomseed : ℤ) : Draws Unit := fun d => some ((), { d with seed := randomseed })

/-- What is done with the script's own function, whose state is its seed. -/
def own (x : StateM ℤ α) : Draws α := fun d =>
  let (a, seed) := x d.seed
  some (a, { d with seed })

/-- `random_func(low, up)` -/
def between (low up : ℤ) : Draws ℤ := own fun seed =>
  let (drawn, seed) := newRandom A seed (some low) (some up)
  (drawn.toInt, seed)

/-- `random_func()` -/
def fraction : StateM ℤ ν := fun seed =>
  let seed := (newRandom A seed none none).2
  (A.div (A.num seed) (A.num 233280), seed)

/-- `(random_func or math.random)(m)` -/
def upto (m : ℕ) : RandomArg → Draws ℕ
  | .own => own fun seed =>
    let (drawn, seed) := newRandom A seed (some m) none
    (drawn.toInt.toNat, seed)
  | .omitted => fun d =>
    let (k, math) := mathRandom.draw m d.math
    some (k, { d with math })

/-- `Random.pickRandom(tbl, random_func)` -/
def pickRandom (tbl : List α) (arg : RandomArg) : Draws (Option α) := do
  let place ← upto A tbl.length arg
  return arrayGet tbl place

/-! ### The data of the events -/

def cardCommon : List ℤ := [10010, 10010]

def cardUncommon : List ℤ := [10010, 10010, 10010]

def monsterCommon : List ℤ := [1003, 1004, 1005, 1006]

def monsterElite : List ℤ := [1101, 1102, 1103, 1104]

def monsterBoss : List ℤ := [1201, 1202, 1203]

def itemAll : List ℤ := [2001]

def optionAll : List ℤ := [8000, 8001, 8002]

/-- What a reward lets choose from. -/
inductive RewardItem where
  | cards (data : List ℤ)
  | items (data : List (ℤ × ℤ))
  | gold (data : ℤ)
  | puppets (data : List ℤ)
  deriving DecidableEq

/-- The table that the function of an event returns. -/
inductive Content where
  | monster (monster : ℤ → Option ℕ) (triggerEventBaseid : Option ℤ)
  | shop (cards items : List (Option ℤ))
  | destroyCard (priceGold : ℤ)
  | levelupCard (priceGold : ℤ)
  | levelupPuppet (priceGold : ℤ)
  | story (storyId : ℤ)
  | storyoption (optionId : Option ℤ)
  | reward (reward : List RewardItem)
  | empty

/-- `t:addMonster(monster_baseid)`; nil is no key. -/
def addMonster (data : ℤ → Option ℕ) : Option ℤ → Draws (ℤ → Option ℕ)
  | some baseid => pure (Function.update data baseid (some ((data baseid).getD 0 + 1)))
  | none => failure

/-- A loop that adds so many monsters. -/
def addMonsters (tbl : List ℤ) (count : ℕ) (data : ℤ → Option ℕ) : Draws (ℤ → Option ℕ) :=
  (List.range count).foldlM (fun data _ => do addMonster data (← pickRandom A tbl .own)) data

/-- `card_choice`: so many cards, where nil adds none. -/
def cardChoice (tbl : List ℤ) (count : ℕ) : Draws RewardItem := do
  let cards ← (List.range count).mapM fun _ => pickRandom A tbl .own
  return .cards (cards.filterMap id)

/-- `item_choice:add(Random.pickRandom(data.item.all), 10)`: here the random function is left out. -/
def itemChoice : Draws RewardItem := do
  match ← pickRandom A itemAll .omitted with
  | some baseid => return .items [(baseid, 10)]
  | none => failure

/-- `gold_choice:add(random_func(low, up))` -/
def goldChoice (low up : ℤ) : Draws RewardItem := do return .gold (← between A low up)

/-! ### The functions of the events -/

def pickMonster (randomseed : ℤ) : Draws Content := do
  seeded randomseed
  let entityCount ← between A 1 3
  let data ← addMonsters A monsterCommon entityCount.toNat fun _ => none
  return .monster data (some 7902)

/-- Whether the elite has company. The condition `random_func() < CopyConfig.EliteGropuProb or 0.5` holds
whatever the number is. -/
def eliteGroup (number : ν) (data : ℤ → Option ℕ) : Draws (ℤ → Option ℕ) :=
  if A.lt number (A.num eliteGropuProb) || true then do
    let count ← between A 1 2
    addMonsters A monsterCommon count.toNat data
  else pure data

def pickElite (randomseed : ℤ) : Draws Content := do
  seeded randomseed
  let data ← addMonster (fun _ => none) (← pickRandom A monsterElite .own)
  let number ← own (fraction A)
  let data ← eliteGroup A number data
  return .monster data (some 7903)

def pickBoss (randomseed : ℤ) : Draws Content := do
  seeded randomseed
  let data ← addMonster (fun _ => none) (← pickRandom A monsterBoss .own)
  return .monster data (some 7904)

def pickReward (randomseed : ℤ) : Draws Content := do
  seeded randomseed
  let cards ← cardChoice A cardUncommon monterLootCardSlot
  let items ← itemChoice A
  return .reward [cards, items, .gold 10, .puppets [1102, 1103]]

/-- `pickRewardA` and `pickRewardB`: cards, items, and gold of an interval. -/
def pickCardsItemsGold (low up randomseed : ℤ) : Draws Content := do
  seeded randomseed
  let cards ← cardChoice A cardUncommon monterLootCardSlot
  let items ← itemChoice A
  let gold ← goldChoice A low up
  return .reward [cards, items, gold]

def pickRewardA (randomseed : ℤ) : Draws Content := pickCardsItemsGold A 10 20 randomseed

def pickRewardB (randomseed : ℤ) : Draws Content := pickCardsItemsGold A 20 30 randomseed

/-- Here the gold is drawn before the items. -/
def pickRewardC (randomseed : ℤ) : Draws Content := do
  seeded randomseed
  let cards ← cardChoice A cardUncommon monterLootCardSlot
  let gold ← goldChoice A 30 40
  let items ← itemChoice A
  return .reward [cards, gold, items]

def pickRewardD (randomseed : ℤ) : Draws Content := pickRewardC A randomseed

/-- No random function is made here: the global `random_func` that is passed is nil. -/
def pickShop : Draws Content := do
  let cards ← (List.range shopCardSlot).mapM fun _ => pickRandom A cardCommon .omitted
  let items ← (List.range shopItemSlot).mapM fun _ => pickRandom A itemAll .omitted
  return .shop cards items

def pickDelCard (copyLayers : ℤ) : Draws Content := return .destroyCard (copyLayers * 10 + 55)

def pickUpgradeCard : Draws Content := return .levelupCard 0

def pickStory : Draws Content := return .story 0

def pickOption (randomseed : ℤ) : Draws Content := do
  seeded randomseed
  return .storyoption (← pickRandom A optionAll .own)

def pickPuppetLevelup (randomseed : ℤ) : Draws Content := do
  seeded randomseed
  return .levelupPuppet 0

def pickEnter : Draws Content := return .empty

def pickExit : Draws Content := return .empty

/-- The functions that the events have. -/
inductive EventPick where
  | pickMonster | pickElite | pickBoss | pickReward | pickRewardA | pickRewardB | pickRewardC | pickRewardD
  | pickShop | pickDelCard | pickUpgradeCard | pickStory | pickOption | pickPuppetLevelup | pickEnter | pickExit
  deriving DecidableEq, Repr

/-- What a function does with the layer and the seed; the other arguments are not read. -/
def EventPick.run (copyLayers randomseed : ℤ) : EventPick → Draws Content
  | pickMonster => Random.pickMonster A randomseed
  | pickElite => Random.pickElite A randomseed
  | pickBoss => Random.pickBoss A randomseed
  | pickReward => Random.pickReward A randomseed
  | pickRewardA => Random.pickRewardA A randomseed
  | pickRewardB => Random.pickRewardB A randomseed
  | pickRewardC => Random.pickRewardC A randomseed
  | pickRewardD => Random.pickRewardD A randomseed
  | pickShop => Random.pickShop A
  | pickDelCard => Random.pickDelCard copyLayers
  | pickUpgradeCard => Random.pickUpgradeCard
  | pickStory => Random.pickStory
  | pickOption => Random.pickOption A randomseed
  | pickPuppetLevelup => Random.pickPuppetLevelup randomseed
  | pickEnter => Random.pickEnter
  | pickExit => Random.pickExit

/-! ### What does not depend on `math.random` -/

/-- The seeds are the same, and `math.random` is in any two states. -/
def SameSeed (d d' : Dice) : Prop := d.seed = d'.seed

/-- Nothing is the same. -/
def AnyDice (_ _ : Dice) : Prop := True

variable {A}

/-- What a script does with its own function depends on the seed alone. -/
theorem alike_own (x : StateM ℤ α) : Alike SameSeed (own x) := by
  intro d d' h
  unfold own
  rw [h]
  exact ⟨rfl, rfl⟩

theorem alike_between (low up : ℤ) : Alike SameSeed (between A low up) := alike_own _

theorem alike_pickRandom_own (tbl : List α) : Alike SameSeed (pickRandom A tbl .own) := by
  have hupto : Alike SameSeed (upto A tbl.length .own) := by
    unfold upto
    exact alike_own _
  exact hupto.bind fun place => alike_pure (arrayGet tbl place)

/-- **From equal entries `math.random` can pick only one.** -/
theorem alike_pickRandom_omitted {R : Dice → Dice → Prop}
    (hR : ∀ d d' math math', R d d' → R { d with math := math } { d' with math := math' }) {tbl : List α} {a : α}
    (hne : tbl ≠ []) (hall : ∀ b ∈ tbl, b = a) : Alike R (pickRandom A tbl .omitted) := by
  have hpick : ∀ d : Dice, pickRandom A tbl .omitted d
      = some (some a, { d with math := (mathRandom.draw tbl.length d.math).2 }) := by
    intro d
    obtain ⟨hlow, hhigh⟩ := mathRandom.mem tbl.length d.math (List.length_pos_iff.2 hne)
    obtain ⟨b, hget⟩ := exists_arrayGet hlow hhigh
    have hb : b ∈ tbl := (perm_tableRemove hget).mem_iff.1 List.mem_cons_self
    rw [hall b hb] at hget
    show some (arrayGet tbl _, _) = _
    rw [hget]
  intro d d' h
  rw [hpick d, hpick d']
  exact ⟨rfl, hR _ _ _ _ h⟩

theorem alike_addMonster (data : ℤ → Option ℕ) (baseid : Option ℤ) : Alike SameSeed (addMonster data baseid) := by
  cases baseid with
  | none => exact alike_failure
  | some baseid => exact alike_pure _

theorem alike_addMonsters (tbl : List ℤ) (count : ℕ) (data : ℤ → Option ℕ) :
    Alike SameSeed (addMonsters A tbl count data) :=
  Alike.foldlM (fun data _ _ => (alike_pickRandom_own tbl).bind (alike_addMonster data)) data

theorem alike_cardChoice (tbl : List ℤ) (count : ℕ) : Alike SameSeed (cardChoice A tbl count) :=
  (Alike.mapM fun _ _ => alike_pickRandom_own tbl).bind fun _ => alike_pure _

theorem alike_itemChoice : Alike SameSeed (itemChoice A) := by
  refine (alike_pickRandom_omitted (fun _ _ _ _ h => h) (a := 2001) (by decide) (by decide)).bind fun picked => ?_
  cases picked with
  | none => exact alike_failure
  | some baseid => exact alike_pure _

theorem alike_goldChoice (low up : ℤ) : Alike SameSeed (goldChoice A low up) :=
  (alike_between low up).bind fun _ => alike_pure _

/-- After its first step a script has the seed it was given. -/
theorem alike_seeded {x : Draws α} (hx : Alike SameSeed x) (randomseed : ℤ) :
    Alike AnyDice (do seeded randomseed; x) := by
  intro d d' _
  have hsame := hx { d with seed := randomseed } { d' with seed := randomseed } rfl
  exact hsame.mono fun _ _ _ => trivial

theorem alike_pickCardsItemsGold (low up randomseed : ℤ) : Alike AnyDice (pickCardsItemsGold A low up randomseed) := by
  refine alike_seeded ((alike_cardChoice _ _).bind fun _ => ?_) _
  exact alike_itemChoice.bind fun _ => (alike_goldChoice low up).bind fun _ => alike_pure _

theorem alike_pickRewardC (randomseed : ℤ) : Alike AnyDice (pickRewardC A randomseed) := by
  refine alike_seeded ((alike_cardChoice _ _).bind fun _ => ?_) _
  exact (alike_goldChoice 30 40).bind fun _ => alike_itemChoice.bind fun _ => alike_pure _

theorem alike_pickShop : Alike AnyDice (pickShop A) := by
  have hcards : Alike AnyDice (pickRandom A cardCommon .omitted) :=
    alike_pickRandom_omitted (fun _ _ _ _ h => h) (a := 10010) (by decide) (by decide)
  have hitems : Alike AnyDice (pickRandom A itemAll .omitted) :=
    alike_pickRandom_omitted (fun _ _ _ _ h => h) (a := 2001) (by decide) (by decide)
  exact (Alike.mapM fun _ _ => hcards).bind fun _ => (Alike.mapM fun _ _ => hitems).bind fun _ => alike_pure _

theorem alike_eliteGroup (number : ν) (data : ℤ → Option ℕ) : Alike SameSeed (eliteGroup A number data) :=
  Alike.ite ((alike_between 1 2).bind fun count => alike_addMonsters monsterCommon count.toNat data) (alike_pure data)

theorem alike_pickElite (randomseed : ℤ) : Alike AnyDice (pickElite A randomseed) := by
  refine alike_seeded ((alike_pickRandom_own _).bind fun first => ?_) _
  refine (alike_addMonster _ first).bind fun data => (alike_own (fraction A)).bind fun number => ?_
  exact (alike_eliteGroup number data).bind fun _ => alike_pure _

/-- **The content of an event does not depend on `math.random`.** -/
theorem pick_alike (copyLayers randomseed : ℤ) (pick : EventPick) : Alike AnyDice (pick.run A copyLayers randomseed) := by
  cases pick with
  | pickMonster =>
    refine alike_seeded ((alike_between 1 3).bind fun count => ?_) _
    exact (alike_addMonsters _ _ _).bind fun _ => alike_pure _
  | pickElite => exact alike_pickElite randomseed
  | pickBoss =>
    refine alike_seeded ((alike_pickRandom_own _).bind fun first => ?_) _
    exact (alike_addMonster _ first).bind fun _ => alike_pure _
  | pickReward =>
    refine alike_seeded ((alike_cardChoice _ _).bind fun _ => ?_) _
    exact alike_itemChoice.bind fun _ => alike_pure _
  | pickRewardA => exact alike_pickCardsItemsGold 10 20 randomseed
  | pickRewardB => exact alike_pickCardsItemsGold 20 30 randomseed
  | pickRewardC => exact alike_pickRewardC randomseed
  | pickRewardD => exact alike_pickRewardC randomseed
  | pickShop => exact alike_pickShop
  | pickDelCard => exact alike_pure _
  | pickUpgradeCard => exact alike_pure _
  | pickStory => exact alike_pure _
  | pickOption => exact alike_seeded ((alike_pickRandom_own _).bind fun _ => alike_pure _) _
  | pickPuppetLevelup => exact alike_seeded (alike_pure _) _
  | pickEnter => exact alike_pure _
  | pickExit => exact alike_pure _

end Slam.Random
