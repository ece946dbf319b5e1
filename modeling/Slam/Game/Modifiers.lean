import Slam.Game.Settle

/-!
# Attack and healing under buffs

`MatchUtil.calcCardAttack` lessens an attack by the buff `WEAK` of the player, says its comment; the value it
reads is that of `ED`, which makes a target more vulnerable. `Actions.takeHeal` lessens a healing by the buff
`ZhiSi`; it calls `EntityExt.getBuffLayerValue` without the entity, so that the base id is taken for the
entity and nil for the base id, and nil is compared with `0`.
-/

namespace Slam.Game

def Stats.weak : ℤ := 3005
def Stats.zhiSi : ℤ := 3038

/-- `math.clamp01` -/
def clamp01 (x : ℚ) : ℚ := max 0 (min 1 x)

/-- An attack of a player on paper, before it is lessened. -/
def World.baseAttack (w : World) (env : Env) (player attack : ℤ) : ℤ :=
  attack + w.getBuffLayers env player Stats.str + (w.pack player).strength

/-- The formula of `calcCardAttack`, `max(0, floor((a + STR layers + strength) * clamp01(1 - value)))`. -/
def World.lessened (w : World) (env : Env) (player attack : ℤ) (value : ℚ) : ℤ :=
  max 0 ⌊(w.baseAttack env player attack : ℚ) * clamp01 (1 - value)⌋

/-- `EntityExt.getBuffLayerValue(who, buff_baseid)`, whose arguments may be missing. -/
def layerValueOf (env : Env) (who baseid : Option ℤ) : Run (Option ℚ) := do
  match who with
  | none => return some 0
  | some e =>
    match baseid with
    | none => throw .arithNil
    | some b => if b ≤ 0 then return some 0 else return (← get).getBuffLayerValue env e b

/-- `Actions.takeHeal(who, amount)` -/
def takeHeal (env : Env) (act : Act → Run Unit) (fuel : ℕ) (who amount : ℤ) : Run Unit := do
  if amount ≤ 0 then return
  let zhisi ← arith (← layerValueOf env (some Stats.zhiSi) none)
  hpAdd env act fuel who ⌊(amount : ℚ) * (1 - zhisi)⌋

variable (env : Env) (w : World) (player attack : ℤ)

/-- `calcCardAttack` is the formula, with the value of `ED`. -/
theorem calcCardAttack_eq : calcCardAttack env player attack w =
    match w.getBuffLayerValue env player Stats.ed with
    | none => .error .arithNil w
    | some value => .ok (w.lessened env player attack value) w := by
  show (arith (w.getBuffLayerValue env player Stats.ed) >>= fun weak => pure (max 0 ⌊_⌋) : Run ℤ) w = _
  cases w.getBuffLayerValue env player Stats.ed with
  | none => rfl
  | some value => rfl

theorem clamp01_nonneg (x : ℚ) : 0 ≤ clamp01 x := le_max_left _ _

/-- Two values lessen an attack to the same one if there is nothing to lessen, or after rounding. -/
theorem World.lessened_eq_iff {u v : ℚ} : w.lessened env player attack u = w.lessened env player attack v ↔
    w.baseAttack env player attack ≤ 0 ∨
      ⌊(w.baseAttack env player attack : ℚ) * clamp01 (1 - u)⌋
        = ⌊(w.baseAttack env player attack : ℚ) * clamp01 (1 - v)⌋ := by
  unfold lessened
  generalize w.baseAttack env player attack = x
  have hfloor : 0 ≤ x → ∀ y : ℚ, 0 ≤ ⌊(x : ℚ) * clamp01 y⌋ := fun hx y =>
    Int.floor_nonneg.2 (mul_nonneg (Int.cast_nonneg hx) (clamp01_nonneg y))
  have hnone : x ≤ 0 → ∀ y : ℚ, max 0 ⌊(x : ℚ) * clamp01 y⌋ = 0 := fun hx y => by
    refine max_eq_left (Int.floor_nonpos ?_)
    exact mul_nonpos_of_nonpos_of_nonneg (Int.cast_nonpos.2 hx) (clamp01_nonneg y)
  rcases le_or_gt x 0 with hx | hx
  · simp only [hnone hx, hx, true_or]
  · rw [max_eq_right (hfloor hx.le _), max_eq_right (hfloor hx.le _)]
    exact ⟨.inr, fun h => h.resolve_left (not_le.2 hx)⟩

/-- The attack is lessened by the buff `WEAK`, and the world is left alone. -/
def WeakLessens : Prop :=
  ∃ value, w.getBuffLayerValue env player Stats.weak = some value ∧
    calcCardAttack env player attack w = .ok (w.lessened env player attack value) w

/-- The healing is lessened by the buff `ZhiSi`, and nothing is raised. -/
def ZhiSiLessens (act : Act → Run Unit) (fuel : ℕ) (who amount : ℤ) : Prop :=
  ∃ value w', w.getBuffLayerValue env who Stats.zhiSi = some value ∧
    takeHeal env act fuel who amount w = .ok () w' ∧
    (w'.pack who).hp = min (w.pack who).maxhp ((w.pack who).hp + ⌊(amount : ℚ) * (1 - value)⌋)

/-- `takeHeal` with something to heal raises. -/
theorem takeHeal_raises (act : Act → Run Unit) (fuel : ℕ) {who amount : ℤ} (hpos : 0 < amount) :
    takeHeal env act fuel who amount w = .error .arithNil w := by
  rw [takeHeal, if_neg (not_le.2 hpos)]
  rfl

/-- A player with a layer of `WEAK`, worth a quarter. -/
def weakWorld : World where
  entityAt _ := { pack := { span := .match, hp := 10, maxhp := 20, buffs := [1] } }
  buffAt _ := { entity := 7, baseid := Stats.weak, base := { layerValue := some (1 / 4) }, layers := 1 }

end Slam.Game
