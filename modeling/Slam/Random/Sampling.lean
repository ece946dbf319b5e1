import Slam.Random.Generator
import Mathlib.Data.List.Perm.Basic
import Mathlib.Data.List.Nodup

/-!
# `modules/random.lua`: sampling and shuffling

`SRSWOR` draws without replacement: the places that are left stand in a table of their own, from which the
place drawn is removed. `shuffleArray` goes through an array from its end and changes each element with one
that does not come after it. Both ask a random function for a number up to what is left; where it gets its
numbers from does not matter, only that it answers `r(m)` with one of `1`, ..., `m`, which is a field here.

* `SRSWOR`, `shuffleArray`: the functions;
* `Sampled`: the invariant of the draws, what has been drawn and what is left make up all places;
* `sampling_conserves`: nothing is lost and nothing comes twice.
-/

namespace Slam.Random

variable {α σ : Type}

/-- A random function with its state. `r(m)` is one of `1`, ..., `m`. -/
structure RandomFunc (σ : Type) where
  draw : ℕ → σ → ℕ × σ
  mem : ∀ m s, 1 ≤ m → 1 ≤ (draw m s).1 ∧ (draw m s).1 ≤ m

/-- `t[i]` of an array; the first place is 1. -/
def arrayGet (t : List α) (i : ℕ) : Option α := if i = 0 then none else t[i - 1]?

/-- `table.remove(t, i)`, which does nothing for a place that is not there. -/
def tableRemove (t : List α) (i : ℕ) : List α := if i = 0 then t else t.eraseIdx (i - 1)

/-- The variables of `SRSWOR`. A result can be nil. -/
structure Sample (α σ : Type) where
  tbl : List α
  indexTable : List ℕ
  total : ℕ
  result : List (Option α)
  random : σ

/-- One turn of the loop of `SRSWOR`. -/
def Sample.pick (randomFunc : RandomFunc σ) (s : Sample α σ) : Sample α σ :=
  let (rnd, random) := randomFunc.draw s.total s.random
  { s with
    result := s.result ++ [(arrayGet s.indexTable rnd).bind (arrayGet s.tbl)]
    indexTable := tableRemove s.indexTable rnd
    total := s.total - 1
    random }

/-- `SRSWOR(tbl, pickcount, random_func)`: the variables after the loop. -/
def SRSWOR (tbl : List α) (pickcount : Option ℕ) (randomFunc : RandomFunc σ) (random : σ) : Sample α σ :=
  (Sample.pick randomFunc)^[pickcount.getD 1]
    { tbl, indexTable := List.range' 1 tbl.length, total := tbl.length, result := [], random }

/-- `tbl[i], tbl[j] = tbl[j], tbl[i]` -/
def exchange (tbl : List α) (i j : ℕ) : List α :=
  match arrayGet tbl i, arrayGet tbl j with
  | some a, some b => (tbl.set (i - 1) b).set (j - 1) a
  | _, _ => tbl

/-- The loop of `shuffleArray`, from `i` down to 2. -/
def shuffleDown (randomFunc : RandomFunc σ) : ℕ → List α → σ → List α × σ
  | i + 2, tbl, s =>
    let (j, s) := randomFunc.draw (i + 2) s
    shuffleDown randomFunc (i + 1) (exchange tbl (i + 2) j) s
  | _, tbl, s => (tbl, s)

/-- `shuffleArray(tbl, random_func)`: the array afterwards, which is also what it returns. -/
def shuffleArray (tbl : List α) (randomFunc : RandomFunc σ) (random : σ) : List α × σ :=
  shuffleDown randomFunc tbl.length tbl random

/-- `Random.newRandom(seed)` with one argument is such a function. -/
def generator : RandomFunc ℤ where
  draw m seed :=
    match newRandom .exact seed (some m) none with
    | (.integer k, seed) => (k.toNat, seed)
    | (.real _, seed) => (0, seed)
  mem m seed hm := by
    obtain ⟨k, hdrawn, hlow, hhigh⟩ := newRandom_upto seed (n := m) (by exact_mod_cast hm)
    have hpair : newRandom .exact seed (some (m : ℤ)) none
        = (.integer k, (newRandom .exact seed (some (m : ℤ)) none).2) := Prod.ext hdrawn rfl
    rw [hpair]
    dsimp only
    omega

/-! ### Draws -/

/-- An array has an element at each of its places. -/
theorem exists_arrayGet {t : List α} {i : ℕ} (hlow : 1 ≤ i) (hhigh : i ≤ t.length) : ∃ a, arrayGet t i = some a := by
  unfold arrayGet
  rw [if_neg (by omega)]
  exact ⟨_, List.getElem?_eq_getElem (by omega)⟩

theorem perm_tableRemove {t : List α} {i : ℕ} {a : α} (hget : arrayGet t i = some a) :
    (a :: tableRemove t i).Perm t := by
  unfold arrayGet at hget
  unfold tableRemove
  split_ifs at hget with hzero
  rw [if_neg hzero]
  obtain ⟨hlt, rfl⟩ := List.getElem?_eq_some_iff.1 hget
  exact List.getElem_cons_eraseIdx_perm hlt

/-- The invariant of the draws: what was drawn came from the places drawn, and these and the places that are
left are all places, each once. -/
structure Sampled (tbl : List α) (s : Sample α σ) (drawn : List ℕ) : Prop where
  tbl_eq : s.tbl = tbl
  total_eq : s.total = s.indexTable.length
  result_eq : s.result = drawn.map (arrayGet tbl)
  places : (drawn ++ s.indexTable).Perm (List.range' 1 tbl.length)

theorem sampled_start (tbl : List α) (random : σ) :
    Sampled tbl { tbl, indexTable := List.range' 1 tbl.length, total := tbl.length, result := [], random } [] where
  tbl_eq := rfl
  total_eq := List.length_range'.symm
  result_eq := rfl
  places := .refl _

/-- **A draw takes one of the places that are left.** -/
theorem Sampled.pick {tbl : List α} {s : Sample α σ} {drawn : List ℕ} (hs : Sampled tbl s drawn)
    (hleft : 0 < s.total) (randomFunc : RandomFunc σ) : ∃ place, Sampled tbl (s.pick randomFunc) (drawn ++ [place]) := by
  obtain ⟨hlow, hhigh⟩ := randomFunc.mem s.total s.random hleft
  obtain ⟨place, hget⟩ := exists_arrayGet hlow (hhigh.trans hs.total_eq.le)
  have hperm := perm_tableRemove hget
  refine ⟨place, hs.tbl_eq, ?_, ?_, ?_⟩
  · have hlength := hperm.length_eq
    rw [List.length_cons] at hlength
    have htotal := hs.total_eq
    show s.total - 1 = (tableRemove s.indexTable (randomFunc.draw s.total s.random).1).length
    omega
  · show s.result ++ [(arrayGet s.indexTable _).bind (arrayGet s.tbl)] = _
    rw [hget, hs.result_eq, hs.tbl_eq, List.map_append]
    rfl
  · show (drawn ++ [place] ++ tableRemove s.indexTable _).Perm _
    rw [List.append_assoc]
    exact (hperm.append_left drawn).trans hs.places

theorem Sampled.picks {tbl : List α} {s : Sample α σ} {drawn : List ℕ} (hs : Sampled tbl s drawn) {k : ℕ}
    (hk : k ≤ s.total) (randomFunc : RandomFunc σ) :
    ∃ places, places.length = k ∧ Sampled tbl ((Sample.pick randomFunc)^[k] s) (drawn ++ places) := by
  induction k generalizing s drawn with
  | zero =>
    refine ⟨[], rfl, ?_⟩
    rw [List.append_nil]
    exact hs
  | succ k ih =>
    obtain ⟨place, hpick⟩ := hs.pick (by omega) randomFunc
    have htotal : (s.pick randomFunc).total = s.total - 1 := rfl
    obtain ⟨places, hlength, hpicks⟩ := ih hpick (by omega)
    refine ⟨place :: places, by rw [List.length_cons, hlength], ?_⟩
    rw [Function.iterate_succ_apply]
    rw [List.append_assoc] at hpicks
    exact hpicks

/-! ### Exchanges -/

theorem exchange_perm (tbl : List α) (i j : ℕ) : (exchange tbl i j).Perm tbl := by
  unfold exchange
  split
  · rename_i a b ha hb
    unfold arrayGet at ha hb
    split_ifs at ha with hi
    split_ifs at hb with hj
    obtain ⟨hilt, rfl⟩ := List.getElem?_eq_some_iff.1 ha
    obtain ⟨hjlt, rfl⟩ := List.getElem?_eq_some_iff.1 hb
    exact List.set_set_perm hilt hjlt
  · exact .refl tbl

theorem shuffleDown_perm (randomFunc : RandomFunc σ) (i : ℕ) (tbl : List α) (s : σ) :
    (shuffleDown randomFunc i tbl s).1.Perm tbl := by
  induction i using Nat.strong_induction_on generalizing tbl s with
  | h i ih =>
    match i with
    | 0 => exact .refl tbl
    | 1 => exact .refl tbl
    | i + 2 => exact (ih (i + 1) (by omega) _ _).trans (exchange_perm tbl _ _)

/-- **Sampling and shuffling conserve the elements.** `SRSWOR` returns the elements at as many different
places as it is asked for and leaves the array alone, and `shuffleArray` permutes it. -/
theorem sampling_conserves (tbl : List α) (randomFunc : RandomFunc σ) (random : σ) :
    (∀ k ≤ tbl.length, (SRSWOR tbl (some k) randomFunc random).tbl = tbl ∧
      ∃ places : List ℕ, places.length = k ∧ places.Nodup ∧ (∀ i ∈ places, 1 ≤ i ∧ i ≤ tbl.length) ∧
        (SRSWOR tbl (some k) randomFunc random).result = places.map (arrayGet tbl)) ∧
    (shuffleArray tbl randomFunc random).1.Perm tbl := by
  refine ⟨fun k hk => ?_, shuffleDown_perm randomFunc _ tbl random⟩
  obtain ⟨places, hlength, hsampled⟩ := (sampled_start tbl random).picks hk randomFunc
  rw [List.nil_append] at hsampled
  have hall : (places ++ (SRSWOR tbl (some k) randomFunc random).indexTable).Perm (List.range' 1 tbl.length) :=
    hsampled.places
  have hnodup := hall.nodup_iff.2 List.nodup_range'
  refine ⟨hsampled.tbl_eq, places, hlength, (List.nodup_append.1 hnodup).1, fun i hi => ?_, hsampled.result_eq⟩
  have hmem := hall.mem_iff.1 (List.mem_append_left _ hi)
  rw [List.mem_range'_1] at hmem
  omega

end Slam.Random
