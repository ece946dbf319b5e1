import Slam.Random.Generator
import Slam.Lib.Machine

/-!
# `copy/copy.lua`: the seeds of the layers

A copy keeps a seed for each of its layers, made when the layer is created for the first time. It is the
second result of `NewRandom(copy_seed)(1, layer)`, which is the seed of the generator after that call. The
layer only enters the interval, not the seed: layer 1 has the seed of the copy, where `NewRandom` leaves it
alone, and all others have the next seed of the generator, one and the same.

* `createScene`, `enterScene`: `Copy:create_scene` and `Copy:enter_scene`, as far as layers and seeds go;
* `Seeded`: the invariant, a seed that is stored is that of its layer;
* `layer_seeds_distinct_iff`: two layers are as far as different seeds go.
-/

namespace Slam.Random

/-- What `copy.script_func` returns. -/
structure LayerEvents where
  mapBaseid : ℤ
  mapEvents : List (ℤ × Option (ℤ × ℤ))
  deriving DecidableEq

/-- The arguments of `Scene:new`. -/
structure SceneArgs where
  mapBaseid : ℤ
  seed : ℤ
  entityid : ℤ
  mapEvents : List (ℤ × Option (ℤ × ℤ))
  deriving DecidableEq

/-- A copy. `copySeed` and `copyLayer` are `current_seed()` and `current_layer()`, kept by its master. -/
structure Copy where
  baseid : ℤ
  copySeed : ℤ
  copyLayer : ℤ
  seeds : ℤ → Option ℤ

/-- `copy.script_func(entityid, copy_baseid, copy_layers, randomseed)`, nil where the copy has no such layer. -/
abbrev ScriptFunc := ℤ → ℤ → ℤ → ℤ → Option LayerEvents

/-- The seed made for a layer. -/
def layerSeed (copySeed layer : ℤ) : ℤ := (NewRandom copySeed 1 layer).2

namespace Copy

variable (scriptFunc : ScriptFunc)

/-- The seed of a layer, made if there is none. -/
def seedOf (copy : Copy) (layer : ℤ) : ℤ := (copy.seeds layer).getD (layerSeed copy.copySeed layer)

/-- `create_scene(entityid, layer)`: the copy afterwards and what the new scene is made from. -/
def createScene (copy : Copy) (entityid layer : ℤ) : Copy × Option SceneArgs :=
  let seed := copy.seedOf layer
  ({ copy with seeds := Function.update copy.seeds layer (some seed) },
    (scriptFunc entityid copy.baseid layer seed).map fun events =>
      { mapBaseid := events.mapBaseid, seed, entityid, mapEvents := events.mapEvents })

/-- `enter_scene(entityid, layer_add)`: the layer counts as entered if it has a scene. -/
def enterScene (copy : Copy) (entityid layerAdd : ℤ) : Copy × Bool :=
  let layer := copy.copyLayer + layerAdd
  match copy.createScene scriptFunc entityid layer with
  | (copy, none) => (copy, false)
  | (copy, some _) => ({ copy with copyLayer := layer }, true)

end Copy

/-- What is called on a copy, with what its script answers at the time. The constructor of a copy creates the
scene of its current layer. -/
inductive CopyCall where
  | createScene (scriptFunc : ScriptFunc) (entityid layer : ℤ)
  | enterScene (scriptFunc : ScriptFunc) (entityid layerAdd : ℤ)

/-- The machine of the calls. -/
def copyMachine : Machine Copy CopyCall where
  step copy
    | .createScene scriptFunc entityid layer => some (copy.createScene scriptFunc entityid layer).1
    | .enterScene scriptFunc entityid layerAdd => some (copy.enterScene scriptFunc entityid layerAdd).1

/-- A copy of that seed, in which a seed that is stored is that of its layer. -/
structure Seeded (copySeed : ℤ) (copy : Copy) : Prop where
  copySeed_eq : copy.copySeed = copySeed
  stored : ∀ layer seed, copy.seeds layer = some seed → seed = layerSeed copySeed layer

theorem Seeded.createScene {copySeed : ℤ} {copy : Copy} (hs : Seeded copySeed copy) (scriptFunc : ScriptFunc)
    (entityid layer : ℤ) :
    Seeded copySeed (copy.createScene scriptFunc entityid layer).1 := by
  refine ⟨hs.copySeed_eq, fun layer' seed hseed => ?_⟩
  by_cases hlayer : layer' = layer
  · subst hlayer
    cases (Function.update_self ..).symm.trans hseed
    unfold Copy.seedOf
    cases hold : copy.seeds layer' with
    | none =>
      rw [hs.copySeed_eq]
      rfl
    | some old => exact hs.stored layer' old hold
  · exact hs.stored layer' seed ((Function.update_of_ne hlayer ..).symm.trans hseed)

theorem Seeded.enterScene {copySeed : ℤ} {copy : Copy} (hs : Seeded copySeed copy) (scriptFunc : ScriptFunc)
    (entityid layerAdd : ℤ) :
    Seeded copySeed (copy.enterScene scriptFunc entityid layerAdd).1 := by
  have hcreated := hs.createScene scriptFunc entityid (copy.copyLayer + layerAdd)
  unfold Copy.enterScene
  dsimp only
  split
  · rename_i copy' heq
    rw [heq] at hcreated
    exact hcreated
  · rename_i copy' args heq
    rw [heq] at hcreated
    exact ⟨hcreated.copySeed_eq, hcreated.stored⟩

/-- **Every call keeps the seeds.** -/
theorem Seeded.run {copySeed : ℤ} {copy copy' : Copy} {calls : List CopyCall} (hs : Seeded copySeed copy)
    (hrun : copyMachine.run copy calls = some copy') : Seeded copySeed copy' := by
  refine Machine.invariant (fun c call c' hc hstep => ?_) hs hrun
  cases call with
  | createScene scriptFunc entityid layer =>
    cases hstep
    exact hc.createScene scriptFunc entityid layer
  | enterScene scriptFunc entityid layerAdd =>
    cases hstep
    exact hc.enterScene scriptFunc entityid layerAdd

/-! ### The seeds themselves -/

theorem layerSeed_one (copySeed : ℤ) : layerSeed copySeed 1 = copySeed := by
  unfold layerSeed NewRandom
  rw [if_pos rfl]

theorem layerSeed_of_ne_one (copySeed : ℤ) {layer : ℤ} (h : layer ≠ 1) :
    layerSeed copySeed layer = congruence copySeed := by
  unfold layerSeed NewRandom
  rw [if_neg (Ne.symm h)]

/-- The generator leaves no seed as it is. -/
theorem congruence_ne (seed : ℤ) : congruence seed ≠ seed := by
  unfold congruence
  omega

/-- **How many layers get seeds of their own.** Whatever has been called on a copy that had no seeds at first,
and whatever its script returns: a seed that is stored is the one that the seed of the copy and the layer
determine. If the layers `1`, ..., `n` have seeds, these are pairwise different exactly if `n` is at most 2. -/
theorem layer_seeds_distinct_iff {copy copy' : Copy} (hnew : ∀ layer, copy.seeds layer = none)
    {calls : List CopyCall} (hrun : copyMachine.run copy calls = some copy') {n : ℕ}
    (hstored : ∀ layer : ℤ, 1 ≤ layer → layer ≤ n → (copy'.seeds layer).isSome) :
    (∀ layer seed, copy'.seeds layer = some seed → seed = layerSeed copy.copySeed layer) ∧
    ((∀ i j : ℤ, 1 ≤ i → i < j → j ≤ n → copy'.seeds i ≠ copy'.seeds j) ↔ n ≤ 2) := by
  have hstart : Seeded copy.copySeed copy := ⟨rfl, fun layer seed hseed => by
    rw [hnew layer] at hseed
    cases hseed⟩
  have hseeded := hstart.run hrun
  have hseeds : ∀ layer : ℤ, 1 ≤ layer → layer ≤ n → copy'.seeds layer = some (layerSeed copy.copySeed layer) := by
    intro layer hlow hhigh
    obtain ⟨seed, hseed⟩ := Option.isSome_iff_exists.1 (hstored layer hlow hhigh)
    rw [hseed, hseeded.stored layer seed hseed]
  refine ⟨hseeded.stored, ?_⟩
  constructor
  · intro hdistinct
    by_contra hn
    -- the layers 2 and 3 both have the next seed of the generator
    refine hdistinct 2 3 (by decide) (by decide) (by omega) ?_
    rw [hseeds 2 (by decide) (by omega), hseeds 3 (by decide) (by omega), layerSeed_of_ne_one _ (by decide),
      layerSeed_of_ne_one _ (by decide)]
  · intro hn i j hi hij hj
    obtain rfl : i = 1 := by omega
    obtain rfl : j = 2 := by omega
    rw [hseeds 1 hi (by omega), hseeds 2 (by omega) hj, layerSeed_one, layerSeed_of_ne_one _ (by decide)]
    intro hsame
    exact congruence_ne copy.copySeed (Option.some.inj hsame).symm

/-- A copy before its first scene. -/
def freshCopy : Copy := ⟨4000, 7, 1, fun _ => none⟩

/-- A script with endless layers. -/
def endless : ScriptFunc := fun _ _ _ _ => some ⟨5000, []⟩

/-- After its first layer and the way to the second. -/
theorem layer_seeds_distinct_twoLayers :
    ∃ copy', copyMachine.run freshCopy [.createScene endless 1 1, .enterScene endless 1 1] = some copy' ∧
      ∀ i j : ℤ, 1 ≤ i → i < j → j ≤ 2 → copy'.seeds i ≠ copy'.seeds j := by
  refine ⟨_, rfl, (@layer_seeds_distinct_iff freshCopy _ (fun _ => rfl)
    [.createScene endless 1 1, .enterScene endless 1 1] rfl 2 ?_).2.2 le_rfl⟩
  intro layer hlow hhigh
  have hcases : layer = 1 ∨ layer = 2 := by omega
  rcases hcases with rfl | rfl <;> rfl

/-- The layers 2 and 3 of the copy with seed 7 both get the seed 114386. -/
theorem layer_seeds_repeat :
    ¬ ∀ (calls : List CopyCall) (copy' : Copy), copyMachine.run freshCopy calls = some copy' →
      ∀ i j : ℤ, 1 ≤ i → i < j → (copy'.seeds i).isSome → (copy'.seeds j).isSome → copy'.seeds i ≠ copy'.seeds j := by
  intro h
  exact h [.createScene endless 1 1, .enterScene endless 1 1, .enterScene endless 1 1] _ rfl 2 3 (by decide)
    (by decide) rfl rfl rfl

end Slam.Random
