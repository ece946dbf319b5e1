import Slam.Game.Tools
import Mathlib.Algebra.Order.Floor.Ring
import Mathlib.Data.Rat.Floor

/-!
# `tools.lua` and `modules/random.lua`: the generators

Two closures over a seed, both linear congruential with the same numbers. `NewRandom` (`NewRandom`, of
`tools.lua`) treats an interval of one number apart and leaves its seed alone there. `Random.newRandom`
(`newRandom`) takes its bounds as options, and an interval of one number falls through to the last branch,
which is the one for no bounds at all: a fraction comes back.

`newRandom` is given over any arithmetic, since Lua computes the quotient in doubles; `Arithmetic.exact` is
the one of the rational numbers.

* `NewRandom`, `newRandom`, `tableRandom`: the functions;
* `newRandom_between`, `newRandom_upto`: their results lie in the interval;
* `ranges_iff`: when both generators keep to it.
-/

namespace Slam.Random

/-- What the scripts compute with numbers. -/
structure Arithmetic (ν : Type) where
  num : ℚ → ν
  add : ν → ν → ν
  sub : ν → ν → ν
  mul : ν → ν → ν
  div : ν → ν → ν
  lt : ν → ν → Bool
  le : ν → ν → Bool
  /-- `math.floor`, as the integer that indexes a table. -/
  floor : ν → ℤ

/-- The arithmetic of the rational numbers. -/
def Arithmetic.exact : Arithmetic ℚ where
  num q := q
  add := (· + ·)
  sub := (· - ·)
  mul := (· * ·)
  div := (· / ·)
  lt a b := a < b
  le a b := a ≤ b
  floor q := ⌊q⌋

/-- `seed = (seed * 9301 + 49279) % 233280` -/
def congruence (seed : ℤ) : ℤ := (seed * 9301 + 49279) % 233280

/-- A call of the closure that `NewRandom` returns: the number and the seed afterwards. -/
def NewRandom (seed low up : ℤ) : ℤ × ℤ :=
  if low = up then (low, seed)
  else
    let seed := congruence seed
    let min := if low < up then low else up
    let max := if low < up then up else low
    (⌊(seed : ℚ) / 233280 * (max - min + 1) + min⌋, seed)

/-- What `Random.newRandom` answers with. -/
inductive Drawn (ν : Type) where
  | integer (n : ℤ)
  | real (x : ν)
  deriving DecidableEq

variable {ν : Type}

/-- A call of the closure that `Random.newRandom` returns: the number and the seed afterwards. -/
def newRandom (A : Arithmetic ν) (seed : ℤ) (low up : Option ℤ) : Drawn ν × ℤ :=
  let seed := congruence seed
  let fraction := A.div (A.num seed) (A.num 233280)
  match low, up with
  | some low, some up =>
    if low < up then (.integer (A.floor (A.add (A.mul fraction (A.num (up - low + 1))) (A.num low))), seed)
    else (.real fraction, seed)
  | some low, none => (.integer (A.floor (A.add (A.mul fraction (A.num low)) (A.num 1))), seed)
  | none, _ => (.real fraction, seed)

section Table

variable {κ υ σ : Type}

/-- `table.size(t)`, where `t` is given as `pairs` visits it. -/
def tableSize (t : List (κ × υ)) : ℤ := t.length

/-- The loop of `table.random`: the pair at a place. -/
def tableAt : List (κ × υ) → ℤ → Option (κ × υ)
  | [], _ => none
  | pair :: t, size => if size = 0 then some pair else tableAt t (size - 1)

/-- `table.random(t, table_size, random_func)`; without a function `math.random_between` takes its place. -/
def tableRandom (t : List (κ × υ)) (tableSize : ℤ) (randomFunc : σ → ℤ → ℤ → ℤ × σ) (s : σ) : Option (κ × υ) × σ :=
  if tableSize > 0 then
    let (size, s) := randomFunc s 0 (tableSize - 1)
    (tableAt t size, s)
  else (none, s)

theorem exists_tableAt (t : List (κ × υ)) {size : ℤ} (hlow : 0 ≤ size) (hhigh : size < t.length) :
    ∃ pair ∈ t, tableAt t size = some pair := by
  induction t generalizing size with
  | nil =>
    simp only [List.length_nil, Nat.cast_zero] at hhigh
    omega
  | cons pair t ih =>
    unfold tableAt
    split_ifs with hzero
    · exact ⟨pair, List.mem_cons_self, rfl⟩
    · rw [List.length_cons, Nat.cast_add, Nat.cast_one] at hhigh
      obtain ⟨found, hmem, hfound⟩ := @ih (size - 1) (by omega) (by omega)
      exact ⟨found, List.mem_cons_of_mem _ hmem, hfound⟩

end Table

/-! ### The scaled fraction -/

theorem congruence_nonneg (seed : ℤ) : 0 ≤ congruence seed := by
  unfold congruence
  omega

theorem congruence_lt (seed : ℤ) : congruence seed < 233280 := by
  unfold congruence
  omega

/-- A fraction below one, spread over an interval. -/
theorem floor_scaled (seed width : ℤ) (hwidth : 0 < width) (low : ℤ) :
    low ≤ ⌊(congruence seed : ℚ) / 233280 * width + low⌋ ∧
      ⌊(congruence seed : ℚ) / 233280 * width + low⌋ < low + width := by
  have hpos : (0 : ℚ) < width := by exact_mod_cast hwidth
  have hnonneg : (0 : ℚ) ≤ congruence seed / 233280 := by
    have hseed : (0 : ℚ) ≤ congruence seed := by exact_mod_cast congruence_nonneg seed
    positivity
  have hless : (congruence seed : ℚ) / 233280 < 1 := by
    have hseed : (congruence seed : ℚ) < 233280 := by exact_mod_cast congruence_lt seed
    rw [div_lt_one (by norm_num)]
    exact hseed
  constructor
  · rw [Int.le_floor]
    have hscaled := mul_nonneg hnonneg hpos.le
    linarith
  · rw [Int.floor_lt]
    push_cast
    have hscaled := mul_lt_mul_of_pos_right hless hpos
    linarith

/-- `NewRandom` computes what the world of a match computes. -/
theorem NewRandom_eq (seed low up : ℤ) : NewRandom seed low up = Game.newRandom seed low up := by
  unfold NewRandom Game.newRandom
  by_cases heq : low = up
  · rw [if_pos heq, if_pos heq]
  · rw [if_neg heq, if_neg heq]
    have hfloor : ∀ width min : ℤ,
        ⌊(congruence seed : ℚ) / 233280 * width + min⌋ = congruence seed * width / 233280 + min := by
      intro width min
      rw [Int.floor_add_intCast, div_mul_eq_mul_div]
      congr 1
      have hdiv := Rat.floor_intCast_div_natCast (congruence seed * width) 233280
      push_cast at hdiv
      exact hdiv
    rcases lt_or_gt_of_ne heq with hlt | hgt
    · simp only [if_pos hlt, max_eq_right hlt.le, min_eq_left hlt.le]
      have hwide := hfloor (up - low + 1) low
      push_cast at hwide
      rw [hwide]
      rfl
    · simp only [if_neg (not_lt.2 hgt.le), max_eq_left hgt.le, min_eq_right hgt.le]
      have hwide := hfloor (low - up + 1) up
      push_cast at hwide
      rw [hwide]
      rfl

theorem newRandom_between (seed : ℤ) {low up : ℤ} (h : low < up) :
    ∃ n, (newRandom .exact seed (some low) (some up)).1 = .integer n ∧ low ≤ n ∧ n ≤ up := by
  obtain ⟨hlow, hhigh⟩ := floor_scaled seed (up - low + 1) (by omega) low
  push_cast at hlow hhigh
  refine ⟨_, ?_, hlow, by omega⟩
  unfold newRandom
  simp only [if_pos h]
  rfl

theorem newRandom_upto (seed : ℤ) {n : ℤ} (h : 1 ≤ n) :
    ∃ k, (newRandom .exact seed (some n) none).1 = .integer k ∧ 1 ≤ k ∧ k ≤ n := by
  obtain ⟨hlow, hhigh⟩ := floor_scaled seed n (by omega) 1
  refine ⟨_, ?_, hlow, by omega⟩
  unfold newRandom
  simp only [Int.cast_one]
  rfl

/-! ### Both generators, after any calls -/

/-- The seed of `NewRandom` after some calls. -/
def seedAfter (seed : ℤ) (calls : List (ℤ × ℤ)) : ℤ := calls.foldl (fun s c => (NewRandom s c.1 c.2).2) seed

/-- The seed of `Random.newRandom` after some calls. -/
def seedLater (A : Arithmetic ν) (seed : ℤ) (calls : List (Option ℤ × Option ℤ)) : ℤ :=
  calls.foldl (fun s c => (newRandom A s c.1 c.2).2) seed

/-- The number that an answer is. -/
def Drawn.value : Drawn ℚ → ℚ
  | integer n => n
  | real x => x

/-- The answer is an integer of the interval. -/
def Drawn.Within (low up : ℤ) (drawn : Drawn ℚ) : Prop := ∃ n : ℤ, drawn.value = n ∧ low ≤ n ∧ n ≤ up

/-- With one number in the interval the answer is a fraction, which is an integer only if it is zero. -/
theorem newRandom_within_iff (seed : ℤ) {low up : ℤ} (h : low ≤ up) :
    (newRandom .exact seed (some low) (some up)).1.Within low up ↔ low < up ∨ (low = 0 ∧ congruence seed = 0) := by
  rcases h.lt_or_eq with hlt | rfl
  · obtain ⟨n, hdrawn, hin⟩ := newRandom_between seed hlt
    refine iff_of_true ⟨n, ?_, hin⟩ (.inl hlt)
    rw [hdrawn]
    rfl
  · have hdrawn : (newRandom .exact seed (some low) (some low)).1 = .real ((congruence seed : ℚ) / 233280) := by
      unfold newRandom
      simp only [lt_irrefl, if_false]
      rfl
    have hlow := congruence_nonneg seed
    have hhigh := congruence_lt seed
    unfold Drawn.Within
    rw [hdrawn]
    constructor
    · rintro ⟨n, hn, hle, hge⟩
      obtain rfl : n = low := le_antisymm hge hle
      -- an integer in the half-open unit interval is zero
      have hfraction : (congruence seed : ℚ) = n * 233280 := by
        rw [← hn]
        unfold Drawn.value
        ring
      have hinteger : congruence seed = n * 233280 := by exact_mod_cast hfraction
      refine .inr ⟨?_, ?_⟩ <;> omega
    · rintro (hlt | ⟨rfl, hzero⟩)
      · exact absurd hlt (lt_irrefl low)
      · refine ⟨0, ?_, le_refl 0, le_refl 0⟩
        rw [hzero]
        simp [Drawn.value]

/-- **When the generators keep to their ranges.** Whatever the seed and the calls before, `NewRandom` answers
with an integer of the interval, and `Random.newRandom` does so exactly if the interval has more than one
number, or is that of 0 with a seed that the generator takes to 0. With one bound `Random.newRandom` keeps to
its range, and `table.random` finds a pair in a table that is not empty. -/
theorem ranges_iff {κ υ : Type} (seed : ℤ) (earlier : List (ℤ × ℤ)) (earlier' : List (Option ℤ × Option ℤ))
    {low up : ℤ} (h : low ≤ up) :
    ((low ≤ (NewRandom (seedAfter seed earlier) low up).1 ∧ (NewRandom (seedAfter seed earlier) low up).1 ≤ up) ∧
        (newRandom .exact (seedLater .exact seed earlier') (some low) (some up)).1.Within low up ↔
      low < up ∨ (low = 0 ∧ congruence (seedLater .exact seed earlier') = 0)) ∧
    (∀ n : ℤ, 1 ≤ n → (newRandom .exact (seedLater .exact seed earlier') (some n) none).1.Within 1 n) ∧
    (∀ t : List (κ × υ), t ≠ [] →
      ∃ pair ∈ t, (tableRandom t (tableSize t) NewRandom (seedAfter seed earlier)).1 = some pair) := by
  refine ⟨?_, fun n hn => ?_, fun t ht => ?_⟩
  · rw [← newRandom_within_iff _ h, NewRandom_eq]
    exact and_iff_right (Game.newRandom_mem h)
  · obtain ⟨k, hdrawn, hin⟩ := newRandom_upto (seedLater .exact seed earlier') hn
    refine ⟨k, ?_, hin⟩
    rw [hdrawn]
    rfl
  · have hsize : 0 < tableSize t := by
      unfold tableSize
      exact_mod_cast List.length_pos_iff.2 ht
    have hmem : 0 ≤ (Game.newRandom (seedAfter seed earlier) 0 (tableSize t - 1)).1 ∧
        (Game.newRandom (seedAfter seed earlier) 0 (tableSize t - 1)).1 ≤ tableSize t - 1 :=
      Game.newRandom_mem (by omega)
    rw [← NewRandom_eq] at hmem
    unfold tableRandom
    rw [if_pos hsize]
    exact exists_tableAt t hmem.1 (by unfold tableSize at hmem ⊢; omega)

/-- Both generators throw a die. -/
theorem ranges_die :
    ((1 ≤ (NewRandom (seedAfter 7 [(1, 1), (5, 2)]) 1 6).1 ∧ (NewRandom (seedAfter 7 [(1, 1), (5, 2)]) 1 6).1 ≤ 6) ∧
      (newRandom .exact (seedLater .exact 7 [(none, none)]) (some 1) (some 6)).1.Within 1 6) ∧
    (∃ pair ∈ [((1 : ℤ), true), (2, false)],
      (tableRandom [((1 : ℤ), true), (2, false)] 2 NewRandom (seedAfter 7 [(1, 1), (5, 2)])).1 = some pair) := by
  have hranges := @ranges_iff ℤ Bool 7 [(1, 1), (5, 2)] [(none, none)] 1 6 (by decide)
  exact ⟨hranges.1.2 (.inl (by decide)), hranges.2.2 [(1, true), (2, false)] (List.cons_ne_nil _ _)⟩

/-- Asked for a number of `[5, 5]`, `Random.newRandom(0)` answers with 49279/233280. -/
theorem newRandom_misses_single :
    ¬ ∀ (seed low up : ℤ), low ≤ up → (newRandom .exact seed (some low) (some up)).1.Within low up := by
  intro h
  rcases (newRandom_within_iff 0 (le_refl 5)).1 (h 0 5 5 (le_refl 5)) with hlt | ⟨hzero, -⟩
  · exact absurd hlt (by decide)
  · exact absurd hzero (by decide)

end Slam.Random
