import Mathlib.Data.Int.Log
import Mathlib.Data.Rat.Floor
import Mathlib.Tactic

/-!
# Binary floating-point numbers

A binary format has a precision `p` and a range of exponents; its finite values are `m * 2 ^ e` with
`|m| < 2 ^ p`. `BinaryFloat fmt` holds a rational of that form, an infinity or a NaN: the representation
is a field, so a value that the format does not have cannot be written down. The two zeros of IEEE 754
compare equal and are one value here, and so are all NaNs.

`round` is the conversion of an exact result to the format, to nearest, ties to even. It is the identity
on what the format can represent (`round_of_representable`), which is all that exact conversions between
integers and floats, or between two formats, rest on.
-/

/-- Precision and exponent range of a binary format; exponents are those of the last digit. -/
structure FloatFormat where
  precision : ℕ
  minExp : ℤ
  maxExp : ℤ
  precision_pos : 0 < precision
  minExp_le_maxExp : minExp ≤ maxExp
  deriving DecidableEq

/-- IEEE 754 `binary64`. -/
def binary64 : FloatFormat := ⟨53, -1074, 971, by norm_num, by norm_num⟩

/-- IEEE 754 `binary32`. -/
def binary32 : FloatFormat := ⟨24, -149, 104, by norm_num, by norm_num⟩

/-- What a float can stand for. -/
inductive FloatValue
  | finite (q : ℚ)
  | inf (negative : Bool)
  | nan
  deriving DecidableEq

namespace FloatFormat

/-- The finite values of a format. -/
def Representable (fmt : FloatFormat) (q : ℚ) : Prop :=
  ∃ m e : ℤ, |m| < 2 ^ fmt.precision ∧ fmt.minExp ≤ e ∧ e ≤ fmt.maxExp ∧ q = m * 2 ^ e

/-- The values of a format. -/
def Valid (fmt : FloatFormat) : FloatValue → Prop
  | .finite q => fmt.Representable q
  | .inf _ => True
  | .nan => True

/-- Every value of `fmt` is one of `fmt'`. -/
structure Embeds (fmt fmt' : FloatFormat) : Prop where
  precision : fmt.precision ≤ fmt'.precision
  minExp : fmt'.minExp ≤ fmt.minExp
  maxExp : fmt.maxExp ≤ fmt'.maxExp

theorem binary32_embeds_binary64 : binary32.Embeds binary64 := by
  constructor <;> decide

theorem Representable.embed {fmt fmt' : FloatFormat} (h : fmt.Embeds fmt') {q : ℚ}
    (hq : fmt.Representable q) : fmt'.Representable q := by
  obtain ⟨m, e, hm, hlo, hhi, rfl⟩ := hq
  refine ⟨m, e, lt_of_lt_of_le hm ?_, h.minExp.trans hlo, hhi.trans h.maxExp, rfl⟩
  exact pow_le_pow_right₀ (by norm_num) h.precision

/-- Integers up to `2 ^ precision` are representable. -/
theorem representable_intCast {fmt : FloatFormat} (hlo : fmt.minExp ≤ 0) (hhi : 1 ≤ fmt.maxExp)
    {n : ℤ} (hn : |n| ≤ 2 ^ fmt.precision) : fmt.Representable n := by
  rcases hn.lt_or_eq with hlt | heq
  · exact ⟨n, 0, hlt, hlo, by omega, by simp⟩
  · -- The largest of them is a power of two, with one digit less.
    obtain ⟨p, hp⟩ : ∃ p, fmt.precision = p + 1 := ⟨fmt.precision - 1, by have := fmt.precision_pos; omega⟩
    rw [hp, pow_succ] at heq
    have hpow : (0 : ℤ) < 2 ^ p := by positivity
    rcases abs_cases n with ⟨habs, -⟩ | ⟨habs, -⟩
    · refine ⟨2 ^ p, 1, ?_, by omega, hhi, ?_⟩
      · rw [hp, pow_succ, abs_of_pos hpow]
        omega
      · rw [show n = 2 ^ p * 2 by omega]
        push_cast
        ring
    · refine ⟨-2 ^ p, 1, ?_, by omega, hhi, ?_⟩
      · rw [hp, pow_succ, abs_neg, abs_of_pos hpow]
        omega
      · rw [show n = -2 ^ p * 2 by omega]
        push_cast
        ring

/-! ### Rounding -/

/-- The nearest integer, ties to even. -/
def roundHalfEven (x : ℚ) : ℤ :=
  if Int.fract x < 1 / 2 then ⌊x⌋
  else if 1 / 2 < Int.fract x then ⌊x⌋ + 1
  else if ⌊x⌋ % 2 = 0 then ⌊x⌋ else ⌊x⌋ + 1

theorem roundHalfEven_intCast (n : ℤ) : roundHalfEven n = n := by
  simp [roundHalfEven]

theorem roundHalfEven_le {x : ℚ} {n : ℤ} (h : x ≤ n) : roundHalfEven x ≤ n := by
  rcases h.lt_or_eq with hlt | rfl
  · have hfloor : ⌊x⌋ < n := Int.floor_lt.2 hlt
    unfold roundHalfEven
    split_ifs <;> omega
  · exact (roundHalfEven_intCast n).le

theorem le_roundHalfEven {x : ℚ} {n : ℤ} (h : (n : ℚ) ≤ x) : n ≤ roundHalfEven x := by
  have hfloor : n ≤ ⌊x⌋ := Int.le_floor.2 h
  unfold roundHalfEven
  split_ifs <;> omega

variable (fmt : FloatFormat)

/-- The exponent at which a rational is rounded. -/
def ulpExp (q : ℚ) : ℤ := max fmt.minExp (Int.log 2 |q| - (fmt.precision - 1))

/-- The mantissa of the rounded value. -/
def mantissa (q : ℚ) : ℤ := roundHalfEven (q / 2 ^ fmt.ulpExp q)

/-- Round to nearest, ties to even; what is too large becomes an infinity. -/
def round (q : ℚ) : FloatValue :=
  let r : ℚ := fmt.mantissa q * 2 ^ fmt.ulpExp q
  if |r| < 2 ^ fmt.precision * 2 ^ fmt.maxExp then .finite r else .inf (decide (q < 0))

theorem abs_div_ulp_lt (q : ℚ) : |q / 2 ^ fmt.ulpExp q| < 2 ^ fmt.precision := by
  have hpos : (0 : ℚ) < 2 ^ fmt.ulpExp q := by positivity
  rw [abs_div, abs_of_pos hpos, div_lt_iff₀ hpos]
  have hlog : |q| < (2 : ℚ) ^ (Int.log 2 |q| + 1) := by
    exact_mod_cast Int.lt_zpow_succ_log_self (b := 2) (by norm_num) |q|
  refine lt_of_lt_of_le hlog ?_
  rw [← zpow_natCast, ← zpow_add₀ (by norm_num)]
  refine zpow_le_zpow_right₀ (by norm_num) ?_
  have := le_max_right fmt.minExp (Int.log 2 |q| - (fmt.precision - 1))
  unfold ulpExp
  omega

theorem abs_mantissa_le (q : ℚ) : |fmt.mantissa q| ≤ 2 ^ fmt.precision := by
  have hlt := abs_lt.1 (abs_div_ulp_lt fmt q)
  rw [abs_le]
  constructor
  · exact le_roundHalfEven (by push_cast; exact hlt.1.le)
  · exact roundHalfEven_le (by push_cast; exact hlt.2.le)

variable {fmt}

theorem round_zero : fmt.round 0 = .finite 0 := by
  have hmant : fmt.mantissa 0 = 0 := by
    rw [mantissa, zero_div]
    exact roundHalfEven_intCast 0
  have hpos : (0 : ℚ) < 2 ^ fmt.precision * 2 ^ fmt.maxExp := by positivity
  simp only [round, hmant, Int.cast_zero, zero_mul, abs_zero, hpos, if_true]

/-- A representable rational is rounded to itself. -/
theorem round_of_representable {q : ℚ} (h : fmt.Representable q) : fmt.round q = .finite q := by
  obtain ⟨m, e, hm, hlo, hhi, hq⟩ := h
  rcases eq_or_ne q 0 with rfl | hne
  · exact round_zero
  have hpos : (0 : ℚ) < |q| := abs_pos.2 hne
  have habs : |q| < 2 ^ fmt.precision * 2 ^ e := by
    have hm' : |(m : ℚ)| < 2 ^ fmt.precision := by exact_mod_cast hm
    rw [hq, abs_mul, abs_of_pos (show (0 : ℚ) < 2 ^ e by positivity)]
    gcongr
  -- The exponent used for rounding is not above `e`, so dividing by its power of two is exact.
  have hexp : fmt.ulpExp q ≤ e := by
    rw [← zpow_natCast, ← zpow_add₀ (by norm_num)] at habs
    have hlog : Int.log 2 |q| < fmt.precision + e :=
      (Int.lt_zpow_iff_log_lt (b := 2) (by norm_num) hpos).1 (by exact_mod_cast habs)
    exact max_le hlo (by omega)
  obtain ⟨d, hd⟩ : ∃ d : ℕ, e = fmt.ulpExp q + d := ⟨(e - fmt.ulpExp q).toNat, by omega⟩
  have hulp : (2 : ℚ) ^ fmt.ulpExp q ≠ 0 := by positivity
  have hdiv : q / 2 ^ fmt.ulpExp q = ((m * 2 ^ d : ℤ) : ℚ) := by
    rw [div_eq_iff hulp]
    conv_lhs => rw [hq, hd, zpow_add₀ (by norm_num), zpow_natCast]
    push_cast
    ring
  have hmant : (fmt.mantissa q : ℚ) * 2 ^ fmt.ulpExp q = q := by
    rw [mantissa, hdiv, roundHalfEven_intCast, ← hdiv, div_mul_cancel₀ q hulp]
  have hbound : |q| < 2 ^ fmt.precision * 2 ^ fmt.maxExp := by
    refine lt_of_lt_of_le habs ?_
    gcongr
    norm_num
  simp only [round, hmant, hbound, if_true]

theorem round_ne_nan (q : ℚ) : fmt.round q ≠ .nan := by
  unfold round
  dsimp only
  split_ifs <;> nofun

/-- Above the subnormal range the mantissa has full length. -/
theorem le_abs_mantissa {q : ℚ} (hq : q ≠ 0) (hexp : fmt.minExp < fmt.ulpExp q) :
    2 ^ (fmt.precision - 1) ≤ |fmt.mantissa q| := by
  have hp := fmt.precision_pos
  have hlog : fmt.ulpExp q = Int.log 2 |q| - (fmt.precision - 1) := by
    rcases max_choice fmt.minExp (Int.log 2 |q| - (fmt.precision - 1)) with h | h
    · exact absurd h hexp.ne'
    · exact h
  have hulp : (0 : ℚ) < 2 ^ fmt.ulpExp q := by positivity
  have hlarge : (2 : ℚ) ^ (fmt.precision - 1) ≤ |q / 2 ^ fmt.ulpExp q| := by
    rw [abs_div, abs_of_pos hulp, le_div_iff₀ hulp, ← zpow_natCast, ← zpow_add₀ (by norm_num), hlog]
    have hle := Int.zpow_log_le_self (b := 2) (by norm_num) (abs_pos.2 hq)
    have hsum : ((fmt.precision - 1 : ℕ) : ℤ) + (Int.log 2 |q| - (fmt.precision - 1)) =
        Int.log 2 |q| := by omega
    rw [hsum]
    exact_mod_cast hle
  rcases le_abs.1 hlarge with h | h
  · exact le_abs.2 (.inl (le_roundHalfEven (by push_cast; exact h)))
  · refine le_abs.2 (.inr (le_neg.1 (roundHalfEven_le ?_)))
    push_cast
    exact le_neg.1 h

/-- Rounding gives a value of the format. -/
theorem valid_round (q : ℚ) : fmt.Valid (fmt.round q) := by
  rcases eq_or_ne q 0 with rfl | hq
  · rw [round_zero]
    exact ⟨0, fmt.minExp, by simp, le_rfl, fmt.minExp_le_maxExp, by simp⟩
  unfold round
  dsimp only
  split_ifs with hbound
  swap
  · trivial
  obtain ⟨p, hp⟩ : ∃ p, fmt.precision = p + 1 :=
    ⟨fmt.precision - 1, by have := fmt.precision_pos; omega⟩
  have hlo : fmt.minExp ≤ fmt.ulpExp q := le_max_left _ _
  have hulp : (0 : ℚ) < 2 ^ fmt.ulpExp q := by positivity
  rw [abs_mul, abs_of_pos hulp] at hbound
  rcases (abs_mantissa_le fmt q).lt_or_eq with hlt | heq
  · refine ⟨fmt.mantissa q, fmt.ulpExp q, hlt, hlo, ?_, rfl⟩
    -- A normal number has a full mantissa, so a bound on its size bounds its exponent.
    rcases hlo.lt_or_eq with hnormal | hmin
    · have hfull : (2 : ℚ) ^ p ≤ |(fmt.mantissa q : ℚ)| := by
        have := le_abs_mantissa hq hnormal
        rw [hp, Nat.add_sub_cancel] at this
        exact_mod_cast this
      have hchain : (2 : ℚ) ^ p * 2 ^ fmt.ulpExp q < 2 ^ p * 2 ^ (fmt.maxExp + 1) := by
        calc (2 : ℚ) ^ p * 2 ^ fmt.ulpExp q ≤ |(fmt.mantissa q : ℚ)| * 2 ^ fmt.ulpExp q := by gcongr
          _ < 2 ^ fmt.precision * 2 ^ fmt.maxExp := hbound
          _ = 2 ^ p * 2 ^ (fmt.maxExp + 1) := by
            rw [hp, pow_succ, zpow_add_one₀ (by norm_num)]
            ring
      have hpow := lt_of_mul_lt_mul_left hchain (by positivity)
      rw [zpow_lt_zpow_iff_right₀ (by norm_num)] at hpow
      omega
    · rw [← hmin]
      exact fmt.minExp_le_maxExp
  · -- The mantissa was rounded up to a power of two: one digit less, one exponent more.
    have hexp : fmt.ulpExp q + 1 ≤ fmt.maxExp := by
      have habs : |(fmt.mantissa q : ℚ)| = 2 ^ fmt.precision := by exact_mod_cast heq
      rw [habs] at hbound
      have hpow := lt_of_mul_lt_mul_left hbound (by positivity)
      rw [zpow_lt_zpow_iff_right₀ (by norm_num)] at hpow
      omega
    obtain ⟨m, hm, hdouble⟩ : ∃ m : ℤ, |m| = 2 ^ p ∧ fmt.mantissa q = m * 2 := by
      rw [hp, pow_succ] at heq
      rcases abs_cases (fmt.mantissa q) with ⟨habs, -⟩ | ⟨habs, -⟩
      · exact ⟨2 ^ p, abs_of_nonneg (by positivity), by omega⟩
      · exact ⟨-2 ^ p, by rw [abs_neg, abs_of_nonneg (by positivity)], by omega⟩
    refine ⟨m, fmt.ulpExp q + 1, ?_, by omega, hexp, ?_⟩
    · rw [hm, hp]
      exact pow_lt_pow_right₀ (by norm_num) (Nat.lt_succ_self p)
    · rw [hdouble, zpow_add_one₀ (by norm_num)]
      push_cast
      ring

end FloatFormat

/-! ### Floats -/

/-- A float: a value of its format. -/
@[ext] structure BinaryFloat (fmt : FloatFormat) where
  value : FloatValue
  valid : fmt.Valid value

namespace BinaryFloat

variable {fmt fmt' : FloatFormat}

instance : DecidableEq (BinaryFloat fmt) := fun x y =>
  decidable_of_iff (x.value = y.value) BinaryFloat.ext_iff.symm

/-- The float nearest to a rational. -/
def ofRat (q : ℚ) : BinaryFloat fmt := ⟨fmt.round q, FloatFormat.valid_round q⟩

/-- The float nearest to an integer. -/
def ofInt (n : ℤ) : BinaryFloat fmt := ofRat n

/-- Conversion to another format. -/
def convert (x : BinaryFloat fmt) : BinaryFloat fmt' :=
  match x.value with
  | .finite q => ofRat q
  | .inf negative => ⟨.inf negative, trivial⟩
  | .nan => ⟨.nan, trivial⟩

/-- Truncation towards zero; `none` for infinities and NaN. -/
def truncate (x : BinaryFloat fmt) : Option ℤ :=
  match x.value with
  | .finite q => some (if q < 0 then ⌈q⌉ else ⌊q⌋)
  | _ => none

/-- An integer that the format can represent survives the conversion and back. -/
theorem truncate_ofInt {n : ℤ} (h : fmt.Representable n) :
    (ofInt n : BinaryFloat fmt).truncate = some n := by
  have hvalue : (ofInt n : BinaryFloat fmt).value = .finite n := FloatFormat.round_of_representable h
  simp only [truncate, hvalue, Int.ceil_intCast, Int.floor_intCast, ite_self]

/-- Conversion to a larger format and back. -/
theorem convert_convert (h : fmt.Embeds fmt') (x : BinaryFloat fmt) :
    (x.convert : BinaryFloat fmt').convert = x := by
  obtain ⟨value, hvalid⟩ := x
  cases value with
  | finite q =>
    have hwide : fmt'.round q = .finite q :=
      FloatFormat.round_of_representable (FloatFormat.Representable.embed h hvalid)
    have hback : fmt.round q = .finite q := FloatFormat.round_of_representable hvalid
    ext1
    simp only [convert, ofRat, hwide, hback]
  | inf negative => rfl
  | nan => rfl

theorem convert_ofInt_zero : (ofInt 0 : BinaryFloat fmt).convert = (ofInt 0 : BinaryFloat fmt') := by
  have hzero : (ofInt 0 : BinaryFloat fmt).value = .finite 0 := FloatFormat.round_zero
  simp only [convert, hzero]
  rw [ofInt, Int.cast_zero]

end BinaryFloat
