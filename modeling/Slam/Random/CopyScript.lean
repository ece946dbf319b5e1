import Slam.Random.EventScript

/-!
# `modules/copyscript.lua`: the events of a layer

`CopyScript.common` makes a random function from the seed of a layer and draws from it how many rooms the layer
has and of which kinds. Which event a room gets is then picked by `pickFuncTable`, whose functions have no
argument and leave `math.random` to decide. So a layer is the same each time only if there is nothing to decide:
it does not exist, or all its rooms are of kinds with one event.

* `common`: the function;
* `pickedElements`: the kinds of the rooms, which the seed determines;
* `content_reproducible_iff`: what can be built again from its seed.
-/

namespace Slam.Random

open TwoRuns

/-- What the scripts compute with the math library as well. -/
structure MathLibrary (ν : Type) extends Arithmetic ν where
  mod : ν → ν → ν
  pow : ν → ν → ν
  sqrt : ν → ν
  log : ν → ν
  cos : ν → ν
  pi : ν

/-- The kinds of rooms. -/
inductive Room where
  | M | J | S | D | E | R | U | P | O
  deriving DecidableEq, Repr

/-- All kinds. -/
def Room.all : List Room := [.M, .J, .S, .D, .E, .R, .U, .P, .O]

/-- The order in which `pairs` visits a table with an entry for each kind. -/
abbrev RoomOrder := { order : List Room // order.Perm Room.all }

/-- The entries of `prob_data`. -/
def probData (copyId : ℤ) : Option (Room → ℚ) :=
  let prob : Room → ℚ
    | .M => 6 / 10
    | .J => 8 / 100
    | .S => 5 / 100
    | .D => 1 / 10
    | .E => 22 / 100
    | .R => 12 / 100
    | .U => 1 / 10
    | .P => 1 / 10
    | .O => 1 / 10
  if copyId = 0 ∨ copyId = 4000 then some prob else none

/-- The lists that `pickFuncTable` picks from. -/
def Room.events : Room → List ℤ
  | M => [7001, 7002, 7003, 7004, 7005, 7006, 7007, 7008, 7009, 7010, 7012, 7013]
  | J => [7101, 7102, 7103, 7104, 7105]
  | S => [7301, 7302]
  | D => [7401]
  | E => [7501, 7502, 7503]
  | R => [7501, 7502, 7503]
  | U => [7701]
  | P => [7702]
  | O => [7801]

/-- `{ map_baseid = ?, map_events = {{event_baseid = ?}, ...} }` -/
structure CopyData where
  mapBaseid : ℤ
  mapEvents : List (Option ℤ)
  deriving DecidableEq

variable {κ ν : Type} (L : MathLibrary ν)

/-- `math.clamp` -/
def clamp (v min max : ν) : ν := if L.lt v min then min else if L.lt max v then max else v

/-- `Random.randomNormal(mu, sigma, random_func)` -/
def randomNormal (mu sigma : ν) : StateM ℤ ν := do
  let v1 ← fraction L.toArithmetic
  let v2 ← fraction L.toArithmetic
  let num := L.mul (L.sqrt (L.mul (L.num (-2)) (L.log v1))) (L.cos (L.mul (L.mul L.pi (L.num 2)) v2))
  return L.add (L.mul num sigma) mu

/-- The loop of `Random.randomWeighted`. -/
def weightedLoop (threshold : ν) : List (κ × ν) → Option κ → Option κ
  | [], lastChoice => lastChoice
  | (k, choice) :: choices, _ =>
    let threshold := L.sub threshold choice
    if L.le threshold (L.num 0) then some k else weightedLoop threshold choices (some k)

/-- `Random.randomWeighted(choices, random_func)`, the choices as `pairs` visits them. -/
def randomWeighted (choices : List (κ × ν)) : StateM ℤ (Option κ) := do
  let total := choices.foldl (fun r choice => L.add r choice.2) (L.num 0)
  let random ← fraction L.toArithmetic
  return weightedLoop L (L.mul random total) choices none

/-- `generateRoomCount(copy_id, copy_layers, random_func)` -/
def generateRoomCount (copyLayers : ℤ) : StateM ℤ ν := do
  let random ← fraction L.toArithmetic
  let mu := L.add (L.add (L.num 6) random) (L.mul (L.num copyLayers) (L.num (1 / 10)))
  let mi := L.div mu (L.num 7)
  let roomCount ← randomNormal L mu mi
  let roomCount := L.sub roomCount (L.mod roomCount (L.num (1 / 100)))
  return clamp L roomCount (L.num 2) (L.num 14)

/-- `weight[picked] = weight[picked] >= 1 and weight[picked] * 0.5 or 0`, if anything was picked. -/
def halve (weight : List (Room × ν)) : Option Room → List (Room × ν)
  | none => weight
  | some picked => weight.map fun entry =>
    if entry.1 = picked then
      (entry.1, if L.le (L.num 1) entry.2 then L.mul entry.2 (L.num (1 / 2)) else L.num 0)
    else entry

/-- The loop of `generateRoomType`, with so many turns left. The kind is false if there was nothing to pick from. -/
def roomTypeLoop : ℕ → List (Room × ν) → StateM ℤ (List (Option Room))
  | 0, _ => pure []
  | turns + 1, weight => do
    let picked ← randomWeighted L weight
    let rest ← roomTypeLoop turns (halve L weight picked)
    return picked :: rest

/-- `generateRoomType(copy_id, level, room_mean, random_func)` -/
def generateRoomType (order : RoomOrder) (copyId : ℤ) (roomMean : ν) : StateM ℤ (List (Option Room)) :=
  let prob := ((probData copyId).orElse fun _ => probData 0).getD fun _ => 0
  let weight := order.1.map fun room => (room, L.pow (L.num 2) (L.mul roomMean (L.num (prob room))))
  roomTypeLoop L (L.floor roomMean).toNat weight

/-- The kinds of the rooms of a layer: `generateRoomCount`, then `generateRoomType`. -/
def rooms (order : RoomOrder) (copyBaseid copyLayers : ℤ) : StateM ℤ (List (Option Room)) := do
  let roomCount ← generateRoomCount L copyLayers
  generateRoomType L order copyBaseid roomCount

/-- `pickFuncTable[v]()`. There is no function for false. -/
def pickFunc : Option Room → Draws (Option ℤ)
  | some room => pickRandom L.toArithmetic room.events .omitted
  | none => failure

/-- `generateDungeonLayer`, with the `max_layers` of the copy's row: nil beyond the last layer. -/
def generateDungeonLayer (order : RoomOrder) (maxLayers copyBaseid copyLayers randomseed : ℤ) :
    Draws (Option CopyData) :=
  if maxLayers ≠ -1 ∧ copyLayers > maxLayers then pure none
  else do
    seeded randomseed
    let pickedElements ← own (rooms L order copyBaseid copyLayers)
    let mapEvents ← pickedElements.mapM (pickFunc L)
    return some { mapBaseid := 5000, mapEvents }

/-- `CopyScript.common(entityid, copy_baseid, copy_layers, randomseed)` -/
def common (order : RoomOrder) (maxLayers copyBaseid copyLayers randomseed : ℤ) : Draws (Option CopyData) :=
  generateDungeonLayer L order maxLayers copyBaseid copyLayers randomseed

/-- The kinds of the rooms that the seed determines. -/
def pickedElements (order : RoomOrder) (copyBaseid copyLayers randomseed : ℤ) : List (Option Room) :=
  (rooms L order copyBaseid copyLayers randomseed).1

variable {L}

/-! ### Something is always picked -/

theorem weightedLoop_isSome (threshold : ν) (choices : List (κ × ν)) (lastChoice : Option κ)
    (hne : choices ≠ [] ∨ lastChoice.isSome) : (weightedLoop L threshold choices lastChoice).isSome := by
  induction choices generalizing threshold lastChoice with
  | nil =>
    rcases hne with hne | hlast
    · exact absurd rfl hne
    · exact hlast
  | cons entry choices ih =>
    unfold weightedLoop
    dsimp only
    split_ifs
    · rfl
    · exact ih _ _ (.inr rfl)

theorem roomTypeLoop_isSome (turns : ℕ) {weight : List (Room × ν)} (hne : weight ≠ []) (seed : ℤ) :
    ∀ picked ∈ (roomTypeLoop L turns weight seed).1, picked.isSome := by
  induction turns generalizing weight seed with
  | zero =>
    intro picked hpicked
    cases hpicked
  | succ turns ih =>
    have hfirst : (randomWeighted L weight seed).1.isSome := weightedLoop_isSome _ weight none (.inl hne)
    intro picked hpicked
    rcases List.mem_cons.1 hpicked with rfl | hrest
    · exact hfirst
    · refine ih ?_ _ picked hrest
      unfold halve
      split
      · exact hne
      · exact fun hnil => hne (List.map_eq_nil_iff.1 hnil)

theorem pickedElements_isSome (order : RoomOrder) (copyBaseid copyLayers randomseed : ℤ) :
    ∀ picked ∈ pickedElements L order copyBaseid copyLayers randomseed, picked.isSome := by
  refine roomTypeLoop_isSome _ ?_ _
  intro hnil
  have hempty : order.1 = [] := List.map_eq_nil_iff.1 hnil
  have hlength := order.2.length_eq
  rw [hempty] at hlength
  exact absurd hlength (by decide)

/-! ### What `math.random` decides -/

/-- A layer beyond the last one. -/
def Beyond (maxLayers copyLayers : ℤ) : Prop := maxLayers ≠ -1 ∧ copyLayers > maxLayers

/-- All rooms of the layer are of kinds with one event. -/
def OneEventEach (L : MathLibrary ν) (order : RoomOrder) (copyBaseid copyLayers randomseed : ℤ) : Prop :=
  ∀ room, some room ∈ pickedElements L order copyBaseid copyLayers randomseed → room.events.length = 1

/-- Any two evaluations return the same, whatever state the generators are in. -/
def Reproducible {α : Type} (x : Draws α) : Prop := ∀ d d', value x d = value x d'

theorem common_of_not_beyond {order : RoomOrder} {maxLayers copyBaseid copyLayers randomseed : ℤ}
    (hlayer : ¬ Beyond maxLayers copyLayers) (d : Dice) :
    value (common L order maxLayers copyBaseid copyLayers randomseed) d =
      (value ((pickedElements L order copyBaseid copyLayers randomseed).mapM (pickFunc L))
        { d with seed := (rooms L order copyBaseid copyLayers randomseed).2 }).map
        fun mapEvents => some { mapBaseid := 5000, mapEvents } := by
  have hwithin : ¬ (maxLayers ≠ -1 ∧ copyLayers > maxLayers) := hlayer
  unfold common generateDungeonLayer
  rw [if_neg hwithin]
  show Option.map Prod.fst (Option.bind ((pickedElements L order copyBaseid copyLayers randomseed).mapM (pickFunc L)
    { d with seed := (rooms L order copyBaseid copyLayers randomseed).2 }) _) = _
  unfold value
  cases (pickedElements L order copyBaseid copyLayers randomseed).mapM (pickFunc L)
    { d with seed := (rooms L order copyBaseid copyLayers randomseed).2 } with
  | none => rfl
  | some out => rfl

/-- **A layer with nothing to decide is the same each time.** -/
theorem reproducible_of_oneEventEach {order : RoomOrder} {maxLayers copyBaseid copyLayers randomseed : ℤ}
    (hone : OneEventEach L order copyBaseid copyLayers randomseed) (hlayer : ¬ Beyond maxLayers copyLayers) :
    Reproducible (common L order maxLayers copyBaseid copyLayers randomseed) := by
  intro d d'
  have halike : Alike AnyDice ((pickedElements L order copyBaseid copyLayers randomseed).mapM (pickFunc L)) := by
    refine Alike.mapM fun picked hpicked => ?_
    cases picked with
    | none => exact alike_failure
    | some room =>
      obtain ⟨event, hevent⟩ := List.length_eq_one_iff.1 (hone room hpicked)
      refine alike_pickRandom_omitted (fun _ _ _ _ h => h) (a := event) ?_ ?_
      · rw [hevent]
        exact List.cons_ne_nil event []
      · rw [hevent]
        exact fun b hb => List.mem_singleton.1 hb
  rw [common_of_not_beyond hlayer, common_of_not_beyond hlayer]
  exact congrArg _ (halike.value_eq trivial)

/-- The dice on which `math.random` always comes up with the same number. -/
def constant (number : ℕ) (seed : ℤ) : Dice := ⟨seed, fun _ => number⟩

/-- What is picked then. -/
def constantPick (number : ℕ) (picked : Option Room) : Option ℤ :=
  picked.bind fun room => arrayGet room.events (number % room.events.length + 1)

theorem mapM_constant (number : ℕ) (seed : ℤ) {elements : List (Option Room)} (hsome : ∀ picked ∈ elements, picked.isSome) :
    elements.mapM (pickFunc L) (constant number seed) = some (elements.map (constantPick number), constant number seed) := by
  induction elements with
  | nil => rfl
  | cons picked elements ih =>
    obtain ⟨room, rfl⟩ := Option.isSome_iff_exists.1 (hsome picked List.mem_cons_self)
    rw [List.mapM_cons]
    have hrest := ih fun p hp => hsome p (List.mem_cons_of_mem _ hp)
    show Option.bind (elements.mapM (pickFunc L) (constant number seed)) _ = _
    rw [hrest]
    rfl

/-- Different numbers pick different events of a kind that has more than one. -/
theorem constantPick_ne {room : Room} (hmany : room.events.length ≠ 1) :
    constantPick 0 (some room) ≠ constantPick 1 (some room) := by
  cases room
  all_goals first | exact absurd rfl hmany | decide

/-- **A layer with something to decide is not the same each time.** -/
theorem oneEventEach_of_reproducible {order : RoomOrder} {maxLayers copyBaseid copyLayers randomseed : ℤ}
    (hlayer : ¬ Beyond maxLayers copyLayers)
    (hsame : Reproducible (common L order maxLayers copyBaseid copyLayers randomseed)) :
    OneEventEach L order copyBaseid copyLayers randomseed := by
  intro room hroom
  by_contra hmany
  have hvalues := hsame (constant 0 0) (constant 1 0)
  have hsome := pickedElements_isSome (L := L) order copyBaseid copyLayers randomseed
  have hvalue : ∀ number, value (common L order maxLayers copyBaseid copyLayers randomseed) (constant number 0)
      = some (some ⟨5000, (pickedElements L order copyBaseid copyLayers randomseed).map (constantPick number)⟩) := by
    intro number
    rw [common_of_not_beyond hlayer]
    have hpicks := mapM_constant (L := L) number (rooms L order copyBaseid copyLayers randomseed).2 hsome
    unfold value
    show Option.map _ (Option.map _ (List.mapM (pickFunc L) _ (constant number _))) = _
    rw [hpicks]
    rfl
  rw [hvalue, hvalue] at hvalues
  simp only [Option.some.injEq, CopyData.mk.injEq, true_and] at hvalues
  exact constantPick_ne hmany (List.map_inj_left.1 hvalues (some room) hroom)

/-- **What can be built again from its seed.** The content of an event always can. A layer can exactly if it is
beyond the last one or all its rooms are of kinds with one event. -/
theorem content_reproducible_iff (L : MathLibrary ν) (order : RoomOrder) (copyLayers randomseed : ℤ) :
    (∀ pick : EventPick, Reproducible (pick.run L.toArithmetic copyLayers randomseed)) ∧
    ∀ maxLayers copyBaseid : ℤ, Reproducible (common L order maxLayers copyBaseid copyLayers randomseed) ↔
      Beyond maxLayers copyLayers ∨ OneEventEach L order copyBaseid copyLayers randomseed := by
  refine ⟨fun pick d d' => (pick_alike copyLayers randomseed pick).value_eq trivial, fun maxLayers copyBaseid => ?_⟩
  by_cases hlayer : Beyond maxLayers copyLayers
  · refine iff_of_true (fun d d' => ?_) (.inl hlayer)
    have hbeyond : maxLayers ≠ -1 ∧ copyLayers > maxLayers := hlayer
    unfold common generateDungeonLayer
    rw [if_pos hbeyond]
    exact (alike_pure (R := AnyDice) none).value_eq trivial
  · rw [or_iff_right hlayer]
    exact ⟨oneEventEach_of_reproducible hlayer, fun hone => reproducible_of_oneEventEach hone hlayer⟩

/-- The math library as far as layer 1 of a copy needs it with the seed 6, to twelve digits. -/
def sixLibrary : MathLibrary ℚ where
  toArithmetic := .exact
  mod a b := a - ⌊a / b⌋ * b
  pow _ v :=
    if v = 2268 / 1000 then 4816549524926 / 1000000000000
    else if v = 3024 / 10000 then 1233194192100 / 1000000000000
    else if v = 189 / 1000 then 1139973272693 / 1000000000000
    else if v = 378 / 1000 then 1299539062455 / 1000000000000
    else if v = 8316 / 10000 then 1779657972133 / 1000000000000
    else 1369453234265 / 1000000000000
  sqrt _ := 3144205815916 / 1000000000000
  log _ := -4943015106421 / 1000000000000
  cos _ := -939110912083 / 1000000000000
  pi := 3141592653590 / 1000000000000

/-- The kinds in the order in which they are written. -/
def sixOrder : RoomOrder := ⟨Room.all, .refl _⟩

/-- Layer 1 of copy 4000 has a shop with the seed 6, and `math.random` decides which. -/
theorem common_not_reproducible :
    ¬ ∀ (order : RoomOrder) (maxLayers copyBaseid copyLayers randomseed : ℤ),
      Reproducible (common sixLibrary order maxLayers copyBaseid copyLayers randomseed) := by
  intro h
  have hone := oneEventEach_of_reproducible (by unfold Beyond; decide) (h sixOrder 2 4000 1 6)
  have hshop : some Room.S ∈ pickedElements sixLibrary sixOrder 4000 1 6 := by decide +kernel
  exact absurd (hone .S hshop) (by decide)

end Slam.Random
