import Slam.Lib.BinaryDigits
import Slam.Lib.FloatArithmetic
import Slam.Lua.Value

/-!
# `tools/bit.lua`: bit operations

The operands are numbers of Lua, doubles, and all that is computed of them is rounded. Each turn of the loop takes
the lowest digits of both, puts the digit of the result in front of a text, and halves the operands; the turn that
leaves both zero is the last one. For other numbers than natural ones the loop need not end: an infinity stays what
it is. The loop is given a number of turns here, and is none if it has not ended by then.

* `bitLoop`: the loop, and `bxor`, `band`, `bor`: the functions;
* `bitLoop_spec`: the text of the digits, for natural numbers that doubles hold exactly;
* `bit_operations`: the functions are the bitwise operations.
-/

namespace Slam.Bit

/-- `x % 2`, which is `x - floor(x / 2) * 2`. -/
def mod2 (x : Double) : Double := x.sub x.half.floor.double

/-- `math.modf(x / 2)`, the first result. -/
def modfHalf (x : Double) : Double := x.half.trunc

/-- The loop of the three functions, with the digit that each of them makes of two digits. -/
def bitLoop (digit : Double → Double → List Byte) : ℕ → Double → Double → List Byte → Option (List Byte)
  | 0, _, _, _ => none
  | turns + 1, tmp1, tmp2, str =>
    let str := digit (mod2 tmp1) (mod2 tmp2) ++ str
    let tmp1 := modfHalf tmp1
    let tmp2 := modfHalf tmp2
    if tmp1.equal (.ofInt 0) && tmp2.equal (.ofInt 0) then some str else bitLoop digit turns tmp1 tmp2 str

/-- A digit in base two. -/
def binaryDigit (b : Byte) : Option Bool :=
  if b = 48 then some false
  else if b = 49 then some true
  else none

/-- `tonumber(str, 2)`. `strtoul` reads the digits, and answers with the largest number of 64 digits where there are
more. Spaces and signs, which it reads as well, are in no text here. -/
def tonumberBinary (str : List Byte) : LuaValue :=
  match str.mapM binaryDigit with
  | some (b :: bits) => .number (.ofInt (min (BinaryDigits.value (b :: bits)) (2 ^ 64 - 1)))
  | _ => .nil

def bxorDigit (s1 s2 : Double) : List Byte := if s1.equal s2 then asciiBytes "0" else asciiBytes "1"

def bandDigit (s1 s2 : Double) : List Byte :=
  if s1.equal s2 then if s1.equal (.ofInt 1) then asciiBytes "1" else asciiBytes "0"
  else asciiBytes "0"

def borDigit (s1 s2 : Double) : List Byte :=
  if s1.equal s2 then if s1.equal (.ofInt 0) then asciiBytes "0" else asciiBytes "1"
  else asciiBytes "1"

/-- `bit.bxor(num1, num2)`, none if it takes more turns. -/
def bxor (turns : ℕ) (num1 num2 : Double) : Option LuaValue :=
  (bitLoop bxorDigit turns num1 num2 []).map tonumberBinary

/-- `bit.band(num1, num2)` -/
def band (turns : ℕ) (num1 num2 : Double) : Option LuaValue :=
  (bitLoop bandDigit turns num1 num2 []).map tonumberBinary

/-- `bit.bor(num1, num2)` -/
def bor (turns : ℕ) (num1 num2 : Double) : Option LuaValue :=
  (bitLoop borDigit turns num1 num2 []).map tonumberBinary

/-! ### One turn -/

/-- The natural numbers that doubles hold exactly, together with their halves. -/
theorem representable_natCast {n : ℕ} (hn : n < 2 ^ 53) : binary64.Representable ((n : ℤ) : ℚ) := by
  refine FloatFormat.representable_intCast (by decide) (by decide) ?_
  rw [Nat.abs_cast]
  exact_mod_cast hn.le

theorem half_natCast {n : ℕ} (hn : n < 2 ^ 53) :
    (BinaryFloat.ofInt n : Double).half = .ofRat (n / 2) ∧ binary64.Representable ((n : ℚ) / 2) := by
  have hhalf : binary64.Representable (((n : ℤ) : ℚ) / 2) := by
    refine FloatFormat.representable_half (by decide) (by decide) ?_
    rw [Nat.abs_cast]
    exact_mod_cast hn
  rw [Int.cast_natCast] at hhalf
  refine ⟨?_, hhalf⟩
  unfold BinaryFloat.half BinaryFloat.ofInt
  rw [BinaryFloat.lift_ofRat _ (representable_natCast hn), Int.cast_natCast]

/-- The loop halves a natural number and cuts it off. -/
theorem modfHalf_natCast {n : ℕ} (hn : n < 2 ^ 53) :
    modfHalf (.ofInt n) = .ofInt ((n / 2 : ℕ) : ℤ) := by
  obtain ⟨hhalf, hrep⟩ := half_natCast hn
  have hnonneg : ¬ (n : ℚ) / 2 < 0 := not_lt.2 (by positivity)
  unfold modfHalf BinaryFloat.trunc BinaryFloat.ofInt
  rw [← BinaryFloat.ofInt, hhalf, BinaryFloat.lift_ofRat _ hrep, if_neg hnonneg, BinaryFloat.floor_half_natCast]

/-- The digit of a natural number. -/
theorem mod2_natCast {n : ℕ} (hn : n < 2 ^ 53) : mod2 (.ofInt n) = .ofInt (n.bodd.toNat : ℤ) := by
  obtain ⟨hhalf, hrep⟩ := half_natCast hn
  have hfloor : (BinaryFloat.ofInt n : Double).half.floor = .ofInt ((n / 2 : ℕ) : ℤ) := by
    unfold BinaryFloat.floor
    rw [hhalf, BinaryFloat.lift_ofRat _ hrep, BinaryFloat.floor_half_natCast]
    rfl
  have hdouble : (BinaryFloat.ofInt ((n / 2 : ℕ) : ℤ) : Double).double = .ofInt ((n / 2 * 2 : ℕ) : ℤ) := by
    unfold BinaryFloat.double BinaryFloat.ofInt
    rw [BinaryFloat.lift_ofRat _ (representable_natCast (by omega))]
    push_cast
    rfl
  have hdigit : ((n : ℤ) : ℚ) - (((n / 2 * 2 : ℕ) : ℤ) : ℚ) = ((n.bodd.toNat : ℤ) : ℚ) := by
    have hmod : n.bodd.toNat = n % 2 := (Nat.mod_two_of_bodd n).symm
    have hdivMod := Nat.div_add_mod n 2
    rw [hmod, sub_eq_iff_eq_add]
    norm_cast
    omega
  unfold mod2
  rw [hfloor, hdouble]
  unfold BinaryFloat.ofInt
  rw [BinaryFloat.sub_ofRat (representable_natCast hn) (representable_natCast (by omega)), hdigit]

/-! ### The loop -/

/-- The text of a digit. -/
def digitText (b : Bool) : List Byte := if b then asciiBytes "1" else asciiBytes "0"

/-- A digit function is a Boolean function of the two digits. -/
def Digits (digit : Double → Double → List Byte) (f : Bool → Bool → Bool) : Prop :=
  ∀ b c : Bool, digit (.ofInt b.toNat) (.ofInt c.toNat) = digitText (f b c)

theorem equal_natCast_iff {m n : ℕ} (hm : m < 2 ^ 53) (hn : n < 2 ^ 53) :
    (BinaryFloat.ofInt m : Double).equal (.ofInt n) ↔ m = n := by
  unfold BinaryFloat.ofInt
  rw [BinaryFloat.equal_ofRat_iff (representable_natCast hm) (representable_natCast hn)]
  norm_cast

theorem equal_digits (b c : Bool) : (BinaryFloat.ofInt b.toNat : Double).equal (.ofInt c.toNat) = decide (b = c) := by
  have hlt : ∀ b : Bool, b.toNat < 2 ^ 53 := by decide
  rw [Bool.eq_iff_iff, equal_natCast_iff (hlt b) (hlt c), decide_eq_true_iff]
  cases b <;> cases c <;> simp

theorem digits_bxor : Digits bxorDigit Bool.xor := by
  intro b c
  unfold bxorDigit
  rw [equal_digits]
  cases b <;> cases c <;> simp [digitText]

theorem digits_band : Digits bandDigit Bool.and := by
  intro b c
  have hone := equal_digits b true
  unfold bandDigit
  rw [equal_digits]
  rw [Bool.toNat_true, Nat.cast_one] at hone
  rw [hone]
  cases b <;> cases c <;> simp [digitText]

theorem digits_bor : Digits borDigit Bool.or := by
  intro b c
  have hzero := equal_digits b false
  unfold borDigit
  rw [equal_digits]
  rw [Bool.toNat_false, Nat.cast_zero] at hzero
  rw [hzero]
  cases b <;> cases c <;> simp [digitText]

/-- **The loop** ends within as many turns as the operands have digits, at least one, and puts the digits of the
operation in front of the text. -/
theorem bitLoop_spec {digit : Double → Double → List Byte} {f : Bool → Bool → Bool} (hdigit : Digits digit f)
    (hf : f false false = false) {turns : ℕ} (hturns : 0 < turns) {a b : ℕ} (ha : a < 2 ^ 53) (hb : b < 2 ^ 53)
    (haturns : a < 2 ^ turns) (hbturns : b < 2 ^ turns) (str : List Byte) :
    ∃ bits, bits ≠ [] ∧ BinaryDigits.value bits = Nat.bitwise f a b ∧
      bitLoop digit turns (.ofInt a) (.ofInt b) str = some (bits.flatMap digitText ++ str) := by
  induction turns generalizing a b str with
  | zero => exact absurd hturns (lt_irrefl 0)
  | succ turns ih =>
    rw [pow_succ] at haturns hbturns
    have hzero : ∀ n : ℕ, n < 2 ^ 53 → ((BinaryFloat.ofInt n : Double).equal (.ofInt 0) ↔ n = 0) := fun n hn =>
      equal_natCast_iff hn (by norm_num)
    have hbit := BinaryDigits.bitwise_eq_bit hf a b
    simp only [bitLoop, mod2_natCast ha, mod2_natCast hb, modfHalf_natCast ha, modfHalf_natCast hb,
      hdigit a.bodd b.bodd, Bool.and_eq_true, hzero (a / 2) (by omega), hzero (b / 2) (by omega)]
    split_ifs with hlast
    · refine ⟨[f a.bodd b.bodd], by simp, ?_, by simp⟩
      rw [hbit, hlast.1, hlast.2, Nat.bitwise_zero]
      exact BinaryDigits.value_concat [] _
    · have hmore : 0 < turns := by
        rw [Nat.pos_iff_ne_zero]
        rintro rfl
        omega
      obtain ⟨bits, -, hvalue, hloop⟩ := ih hmore (a := a / 2) (b := b / 2) (by omega) (by omega) (by omega) (by omega)
        (digitText (f a.bodd b.bodd) ++ str)
      refine ⟨bits ++ [f a.bodd b.bodd], by simp, ?_, ?_⟩
      · rw [BinaryDigits.value_concat, hvalue, hbit]
      · rw [hloop, List.flatMap_append, List.append_assoc]
        simp

/-- The loop does not end on an infinity or a NaN. -/
theorem bitLoop_of_not_finite (digit : Double → Double → List Byte) (turns : ℕ) {tmp1 : Double}
    (hnot : ∀ q, tmp1.value ≠ .finite q) (tmp2 : Double) (str : List Byte) :
    bitLoop digit turns tmp1 tmp2 str = none := by
  have hstays : modfHalf tmp1 = tmp1 := by
    have hlift : ∀ f, BinaryFloat.lift f tmp1 = tmp1 := by
      intro f
      unfold BinaryFloat.lift
      split
      · exact absurd ‹_› (hnot _)
      · rfl
    unfold modfHalf BinaryFloat.trunc BinaryFloat.half
    rw [hlift, hlift]
  have hzero : tmp1.equal (.ofInt 0) = false := by
    have hvalue : (BinaryFloat.ofInt 0 : Double).value = .finite 0 := FloatFormat.round_zero
    rw [← Bool.not_eq_true, BinaryFloat.equal_iff]
    rintro ⟨rfl, -⟩
    exact hnot 0 hvalue
  induction turns generalizing tmp2 str with
  | zero => rfl
  | succ turns ih =>
    simp only [bitLoop, hstays, hzero, Bool.false_and]
    exact ih _ _

/-- Reading the digits that have been written. -/
theorem tonumberBinary_digits {bits : List Bool} (hne : bits ≠ []) (hlt : BinaryDigits.value bits < 2 ^ 64) :
    tonumberBinary (bits.flatMap digitText) = .number (.ofInt (BinaryDigits.value bits)) := by
  have hread : (bits.flatMap digitText).mapM binaryDigit = some bits := by
    clear hne hlt
    induction bits with
    | nil => rfl
    | cons b bits ih =>
      have hfirst : ∃ c, digitText b = [c] ∧ binaryDigit c = some b := by cases b <;> exact ⟨_, rfl, rfl⟩
      obtain ⟨c, htext, hc⟩ := hfirst
      rw [List.flatMap_cons, htext, List.singleton_append, List.mapM_cons, hc, ih]
      rfl
  obtain ⟨b, bits, rfl⟩ := List.exists_cons_of_ne_nil hne
  unfold tonumberBinary
  rw [hread]
  dsimp only
  rw [min_eq_left (by omega)]

/-- A function of the module is the bitwise operation of its digits. -/
theorem operation_eq {digit : Double → Double → List Byte} {f : Bool → Bool → Bool} (hdigit : Digits digit f)
    (hf : f false false = false) {a b : ℕ} (ha : a < 2 ^ 53) (hb : b < 2 ^ 53) {turns : ℕ} (hturns : 53 ≤ turns) :
    (bitLoop digit turns (.ofInt a) (.ofInt b) []).map tonumberBinary =
      some (.number (.ofInt (Nat.bitwise f a b))) := by
  have hpow : 2 ^ 53 ≤ 2 ^ turns := Nat.pow_le_pow_right (by norm_num) hturns
  obtain ⟨bits, hne, hvalue, hloop⟩ :=
    bitLoop_spec hdigit hf (by omega) ha hb (ha.trans_le hpow) (hb.trans_le hpow) []
  have hlt : BinaryDigits.value bits < 2 ^ 64 := by
    rw [hvalue]
    exact (Nat.bitwise_lt_two_pow ha hb).trans (by norm_num)
  rw [hloop, List.append_nil, Option.map_some, tonumberBinary_digits hne hlt, hvalue]

/-- **The bit operations.** For natural numbers below `2 ^ 53` the three functions end, after 53 turns at most, and
answer with the bitwise exclusive or, and, and or. -/
theorem bit_operations {a b : ℕ} (ha : a < 2 ^ 53) (hb : b < 2 ^ 53) {turns : ℕ} (hturns : 53 ≤ turns) :
    bxor turns (.ofInt a) (.ofInt b) = some (.number (.ofInt ((a ^^^ b : ℕ) : ℤ))) ∧
      band turns (.ofInt a) (.ofInt b) = some (.number (.ofInt ((a &&& b : ℕ) : ℤ))) ∧
      bor turns (.ofInt a) (.ofInt b) = some (.number (.ofInt ((a ||| b : ℕ) : ℤ))) :=
  ⟨operation_eq digits_bxor rfl ha hb hturns, operation_eq digits_band rfl ha hb hturns,
    operation_eq digits_bor rfl ha hb hturns⟩

/-- Operands of different lengths. -/
theorem bit_operations_six_one :
    bxor 53 (.ofInt (6 : ℕ)) (.ofInt (1 : ℕ)) = some (.number (.ofInt ((6 ^^^ 1 : ℕ) : ℤ))) ∧
      band 53 (.ofInt (6 : ℕ)) (.ofInt (1 : ℕ)) = some (.number (.ofInt ((6 &&& 1 : ℕ) : ℤ))) ∧
      bor 53 (.ofInt (6 : ℕ)) (.ofInt (1 : ℕ)) = some (.number (.ofInt ((6 ||| 1 : ℕ) : ℤ))) :=
  bit_operations (by norm_num) (by norm_num) le_rfl

end Slam.Bit
