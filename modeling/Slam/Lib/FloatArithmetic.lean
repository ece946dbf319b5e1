import Slam.Lib.BinaryFloat

/-!
# Arithmetic of floats

The result of an operation on finite values is the exact one, rounded. A function of one argument that has no
limits of its own is `lift`ed: infinities and NaN stay as they are. On values that the format can represent all
operations are exact as long as their results are representable too, which is all that code on integers rests on.
-/

namespace FloatFormat

/-- Halves of integers below `2 ^ precision` are representable. -/
theorem representable_half {fmt : FloatFormat} (hlo : fmt.minExp ≤ -1) (hhi : -1 ≤ fmt.maxExp) {n : ℤ}
    (hn : |n| < 2 ^ fmt.precision) : fmt.Representable ((n : ℚ) / 2) :=
  ⟨n, -1, hn, hlo, hhi, by rw [zpow_neg_one, div_eq_mul_inv]⟩

end FloatFormat

namespace BinaryFloat

variable {fmt : FloatFormat}

/-- Whether two floats compare equal. A NaN does not, not even with itself. -/
def equal (x y : BinaryFloat fmt) : Bool := decide (x = y) && decide (x.value ≠ .nan)

theorem equal_iff {x y : BinaryFloat fmt} : x.equal y ↔ x = y ∧ x.value ≠ .nan := by
  simp [equal]

/-- A function of the finite values. -/
def lift (f : ℚ → ℚ) (x : BinaryFloat fmt) : BinaryFloat fmt :=
  match x.value with
  | .finite q => ofRat (f q)
  | _ => x

def half (x : BinaryFloat fmt) : BinaryFloat fmt := lift (fun q => q / 2) x

def double (x : BinaryFloat fmt) : BinaryFloat fmt := lift (fun q => q * 2) x

def floor (x : BinaryFloat fmt) : BinaryFloat fmt := lift (fun q => ⌊q⌋) x

/-- Towards zero. -/
def trunc (x : BinaryFloat fmt) : BinaryFloat fmt := lift (fun q => if q < 0 then ⌈q⌉ else ⌊q⌋) x

def sub (x y : BinaryFloat fmt) : BinaryFloat fmt :=
  match x.value, y.value with
  | .finite q, .finite r => ofRat (q - r)
  | .nan, _ => ⟨.nan, trivial⟩
  | _, .nan => ⟨.nan, trivial⟩
  | .inf s, .finite _ => ⟨.inf s, trivial⟩
  | .finite _, .inf s => ⟨.inf !s, trivial⟩
  | .inf s, .inf t => if s = t then ⟨.nan, trivial⟩ else ⟨.inf s, trivial⟩

theorem value_ofRat {q : ℚ} (h : fmt.Representable q) : (ofRat q : BinaryFloat fmt).value = .finite q :=
  FloatFormat.round_of_representable h

theorem lift_ofRat (f : ℚ → ℚ) {q : ℚ} (h : fmt.Representable q) :
    lift f (ofRat q : BinaryFloat fmt) = ofRat (f q) := by
  simp only [lift, value_ofRat h]

theorem sub_ofRat {q r : ℚ} (hq : fmt.Representable q) (hr : fmt.Representable r) :
    sub (ofRat q : BinaryFloat fmt) (ofRat r) = ofRat (q - r) := by
  simp only [sub, value_ofRat hq, value_ofRat hr]

theorem equal_ofRat_iff {q r : ℚ} (hq : fmt.Representable q) (hr : fmt.Representable r) :
    equal (ofRat q : BinaryFloat fmt) (ofRat r) ↔ q = r := by
  rw [equal_iff, BinaryFloat.ext_iff, value_ofRat hq, value_ofRat hr, FloatValue.finite.injEq]
  simp

/-- The half of a natural number, cut off. -/
theorem floor_half_natCast (n : ℕ) : ⌊(n : ℚ) / 2⌋ = ((n / 2 : ℕ) : ℤ) := by
  exact_mod_cast Rat.floor_natCast_div_natCast n 2

end BinaryFloat
