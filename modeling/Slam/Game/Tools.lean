import Slam.Game.World

/-!
# `tools.lua`: random numbers and random keys

`NewRandom` is a linear congruential generator. Its quotient is computed over the rationals here,
while Lua rounds it to a double; both lie in the interval asked for, which is all that
`table.random` needs to find a key (`tableRandom_apply`).
-/

namespace Slam.Game

/-- A call of the closure that `NewRandom` returns, with its seed: the number and the next seed. -/
def newRandom (seed low up : ℤ) : ℤ × ℤ :=
  if low = up then (low, seed)
  else
    let seed := (seed * 9301 + 49279) % 233280
    (seed * (max low up - min low up + 1) / 233280 + min low up, seed)

/-- `NewRandom` stays within its bounds. -/
theorem newRandom_mem {seed low up : ℤ} (h : low ≤ up) :
    low ≤ (newRandom seed low up).1 ∧ (newRandom seed low up).1 ≤ up := by
  unfold newRandom
  split_ifs with heq
  · exact ⟨le_refl _, h⟩
  · rw [max_eq_right h, min_eq_left h]
    have hlow : 0 ≤ (seed * 9301 + 49279) % 233280 := Int.emod_nonneg _ (by norm_num)
    have hhigh : (seed * 9301 + 49279) % 233280 < 233280 := Int.emod_lt_of_pos _ (by norm_num)
    generalize (seed * 9301 + 49279) % 233280 = s at hlow hhigh
    have hwidth : 0 < up - low + 1 := by omega
    have hnonneg : 0 ≤ s * (up - low + 1) / 233280 :=
      Int.ediv_nonneg (mul_nonneg hlow hwidth.le) (by norm_num)
    have hless : s * (up - low + 1) / 233280 < up - low + 1 := by
      refine Int.ediv_lt_of_lt_mul (by norm_num) ?_
      rw [mul_comm]
      exact mul_lt_mul_of_pos_left hhigh hwidth
    constructor
    · show low ≤ _ + low
      omega
    · show _ + low ≤ up
      omega

/-- `table.random(t, table.size(t), entity.random_func)`: a key of the table, none if it is empty. -/
def tableRandom (env : Env) (e : ℤ) (keys : List ℤ) : Run (Option ℤ) := do
  if keys.length = 0 then return none
  let x := (← get).entityAt e
  let (number, seed) := newRandom x.seed 0 (keys.length - 1)
  modifyEntity e fun x => { x with seed := seed }
  return (env.pairs keys)[number.toNat]?

/-- The world after a random number has been drawn for an entity. -/
def World.reseed (w : World) (e : ℤ) (n : ℕ) : World :=
  w.setEntity e { w.entityAt e with seed := (newRandom (w.entityAt e).seed 0 (n - 1)).2 }

@[simp] theorem World.pack_reseed (w : World) (e i : ℤ) (n : ℕ) : (w.reseed e n).pack i = w.pack i := by
  by_cases h : i = e
  · subst h
    simp [World.pack, World.reseed]
  · simp [World.pack, World.reseed, entityAt_setEntity_of_ne _ h]

/-- A key of a table that is not empty is found. -/
theorem tableRandom_apply (env : Env) {e : ℤ} {keys : List ℤ} (hkeys : keys ≠ []) (w : World) :
    ∃ k ∈ keys, tableRandom env e keys w = .ok (some k) (w.reseed e keys.length) := by
  have hpos : 0 < keys.length := List.length_pos_iff.2 hkeys
  have hnumber : 0 ≤ (newRandom (w.entityAt e).seed 0 (keys.length - 1)).1 ∧
      (newRandom (w.entityAt e).seed 0 (keys.length - 1)).1 ≤ keys.length - 1 :=
    newRandom_mem (by omega)
  have hindex : (newRandom (w.entityAt e).seed 0 (keys.length - 1)).1.toNat < (env.pairs keys).length := by
    rw [env.length_pairs]
    omega
  refine ⟨(env.pairs keys)[(newRandom (w.entityAt e).seed 0 (keys.length - 1)).1.toNat],
    env.mem_pairs.1 (List.getElem_mem hindex), ?_⟩
  have hne : ¬ keys.length = 0 := hpos.ne'
  simp only [tableRandom, if_neg hne]
  show EStateM.Result.ok _ _ = _
  rw [List.getElem?_eq_getElem hindex]
  rfl

end Slam.Game
