import Slam.Json.Encode

/-!
# `json.decode`

The functions call one another for the parts of a value, and each call takes fuel. The text gets shorter from one
call to the next, so an amount that is linear in its length is enough (`decode_eq`), and with it `json.decode` ends on
every text.

* `decodeFuel`, `scanArrayFuel`, `scanObjectFuel`: `json.decode`, `decode_scanArray` and `decode_scanObject`;
* `decode`, `scanArray`, `scanObject`: the same with enough fuel;
* `decode_eq`, `scanArray_eq`, `scanObject_eq`: they satisfy the equations of the source;
* `decode_ends`: no text is too long, and what is returned has taken something of it.
-/

namespace Slam.Json

variable (js : JsonRuntime)

/-- What can be concatenated with a message. -/
def isText : LuaValue → Bool
  | .string _ => true
  | .number _ => true
  | _ => false

/-- `object[key] = value`, for a key that is a string or a number. -/
def assignKey (object : LuaEntries) (key value : LuaValue) : Except JsonError LuaEntries :=
  match key.toKey with
  | none => .error .indexNaN
  | some k => .ok (tableSet object k value)

/-- Between two elements there may be a comma. -/
def skipComma (s : List Byte) : List Byte := if asciiBytes "," <+: s then scanWhitespace (s.drop 1) else s

/-- `assert` -/
def ensure (c : Prop) [Decidable c] (e : JsonError) : Except JsonError Unit := if c then .ok () else .error e

/-- What stands between a key and its value. The messages of the assertions are put together before they are needed. -/
def scanColon (key : LuaValue) (s : List Byte) : Except JsonError (List Byte) := do
  ensure (isText key) .concatenate
  ensure (s ≠ []) .valueMissing
  let s := scanWhitespace s
  ensure (s ≠ []) .valueMissing
  ensure (asciiBytes ":" <+: s) .assignment
  let s := scanWhitespace (s.drop 1)
  ensure (s ≠ []) .valueMissing
  return s

mutual

/-- `json.decode` -/
def decodeFuel : ℕ → List Byte → Except JsonError (LuaValue × List Byte)
  | 0, _ => .error .fuel
  | fuel + 1, s =>
    match scanWhitespace s with
    | [] => .error .unterminated
    | c :: s =>
      if c = 123 then scanObjectFuel fuel [] s
      else if c = 91 then scanArrayFuel fuel 1 [] s
      else if c ∈ acceptableChars then scanNumber js (c :: s)
      else if c = quotationMark ∨ c = apostrophe then scanString js c s
      else if asciiBytes "/*" <+: c :: s then do
        let s ← scanComment (s.drop 1)
        decodeFuel fuel s
      else scanConstant (c :: s)

/-- The loop of `decode_scanArray`. -/
def scanArrayFuel : ℕ → ℕ → LuaEntries → List Byte → Except JsonError (LuaValue × List Byte)
  | 0, _, _, _ => .error .fuel
  | fuel + 1, index, array, s => do
    let s := scanWhitespace s
    ensure (s ≠ []) .arrayEnded
    if asciiBytes "]" <+: s then return (.table array, s.drop 1)
    let s := skipComma s
    ensure (s ≠ []) .arrayEnded
    let p ← decodeFuel fuel s
    scanArrayFuel fuel (index + 1) (tableSet array (indexKey index) p.1) p.2

/-- The loop of `decode_scanObject`. -/
def scanObjectFuel : ℕ → LuaEntries → List Byte → Except JsonError (LuaValue × List Byte)
  | 0, _, _ => .error .fuel
  | fuel + 1, object, s => do
    let s := scanWhitespace s
    ensure (s ≠ []) .objectEnded
    if asciiBytes "\x7d" <+: s then return (.table object, s.drop 1)
    let s := skipComma s
    ensure (s ≠ []) .objectEnded
    let key ← decodeFuel fuel s
    let s ← scanColon key.1 key.2
    let value ← decodeFuel fuel s
    scanObjectFuel fuel (← assignKey object key.1 value.1) value.2

end

/-! ### The text gets shorter -/

/-- `r` is what is left of `s` when something has been read. -/
def Behind (r s : List Byte) : Prop := r <:+ s ∧ r.length < s.length

variable {js} {r s t : List Byte} {b : Byte}

theorem behind_cons (h : r <:+ s) (b : Byte) : Behind r (b :: s) :=
  ⟨h.trans (List.suffix_cons b s), Nat.lt_succ_of_le h.length_le⟩

theorem Behind.trans_suffix (h : Behind r s) (ht : s <:+ t) : Behind r t :=
  ⟨h.1.trans ht, h.2.trans_le ht.length_le⟩

theorem Behind.trans (h : Behind r s) (ht : Behind s t) : Behind r t := h.trans_suffix ht.1

theorem behind_drop {k : ℕ} (hk : k ≠ 0) (hs : s ≠ []) : Behind (s.drop k) s := by
  have hlength := List.length_pos_iff.2 hs
  refine ⟨List.drop_suffix k s, ?_⟩
  rw [List.length_drop]
  omega

theorem scanWhitespace_suffix (s : List Byte) : scanWhitespace s <:+ s := List.dropWhile_suffix _

theorem skipComma_suffix (s : List Byte) : skipComma s <:+ s := by
  rw [skipComma]
  split_ifs
  · exact (scanWhitespace_suffix _).trans (List.drop_suffix 1 s)
  · exact List.suffix_rfl

theorem behind_scanComment (h : scanComment s = .ok r) : Behind r s := by
  induction s with
  | nil => cases h
  | cons b s ih =>
    rw [scanComment] at h
    split_ifs at h
    · obtain rfl := Except.ok.inj h
      exact behind_cons (List.drop_suffix 1 s) b
    · exact behind_cons (ih h).1 b

theorem behind_scanConstant {p : LuaValue × List Byte} (h : scanConstant s = .ok p) : Behind p.2 s := by
  have hne {w : List Byte} (hw : w ≠ []) (hfront : w <+: s) : s ≠ [] := by
    rintro rfl
    exact hw (List.prefix_nil.1 hfront)
  rw [scanConstant] at h
  split_ifs at h with htrue hfalse hnull
  · obtain rfl := Except.ok.inj h
    exact behind_drop (by decide) (hne (by decide) htrue)
  · obtain rfl := Except.ok.inj h
    exact behind_drop (by decide) (hne (by decide) hfalse)
  · obtain rfl := Except.ok.inj h
    exact behind_drop (by decide) (hne (by decide) hnull)

theorem behind_scanNumber {p : LuaValue × List Byte} (h : scanNumber js s = .ok p) : Behind p.2 s := by
  cases s with
  | nil => cases h
  | cons c s =>
    rw [scanNumber] at h
    cases hload : js.load (c :: s.takeWhile (· ∈ acceptableChars)) with
    | none => simp [hload] at h
    | some v =>
      rw [hload] at h
      obtain rfl := Except.ok.inj h
      exact behind_cons (List.dropWhile_suffix _) c

theorem behind_scanStringLoop {quote : Byte} {p : List Byte × List Byte} (h : scanStringLoop js quote t s = .ok p) :
    Behind p.2 s := by
  fun_induction scanStringLoop js quote t s with
  | case1 t s hquote =>
    obtain rfl := Except.ok.inj h
    refine behind_drop (by decide) ?_
    rintro rfl
    cases hquote
  | case2 => cases h
  | case3 t s hquote q hturn ih =>
    obtain ⟨hs, k, hk, hdrop⟩ := exists_drop_of_scanStringTurn js hquote hturn
    have hbehind := behind_drop hk hs
    rw [← hdrop] at hbehind
    exact (ih h).trans hbehind

theorem behind_scanString {quote : Byte} {p : LuaValue × List Byte} (h : scanString js quote s = .ok p) : Behind p.2 s := by
  rw [scanString] at h
  cases hloop : scanStringLoop js quote [] s with
  | error e => simp [hloop, Except.map] at h
  | ok q =>
    rw [hloop] at h
    obtain rfl := Except.ok.inj h
    exact behind_scanStringLoop hloop

theorem bind_eq_ok {ε α β : Type} {x : Except ε α} {f : α → Except ε β} {y : β} :
    (x >>= f) = .ok y ↔ ∃ a, x = .ok a ∧ f a = .ok y := by
  cases x with
  | error e => simp [bind, Except.bind]
  | ok a => simp [bind, Except.bind]

theorem ensure_eq_ok {c : Prop} [Decidable c] {e : JsonError} {u : Unit} : ensure c e = .ok u ↔ c := by
  rw [ensure]
  split_ifs with hc <;> simp [hc]

theorem ensure_pos {c : Prop} [Decidable c] (h : c) (e : JsonError) : ensure c e = .ok () := if_pos h

theorem scanColon_suffix {key : LuaValue} (h : scanColon key s = .ok r) : r <:+ s := by
  rw [scanColon] at h
  obtain ⟨-, -, h⟩ := bind_eq_ok.1 h
  obtain ⟨-, -, h⟩ := bind_eq_ok.1 h
  obtain ⟨-, -, h⟩ := bind_eq_ok.1 h
  obtain ⟨-, -, h⟩ := bind_eq_ok.1 h
  obtain ⟨-, -, h⟩ := bind_eq_ok.1 h
  obtain rfl := Except.ok.inj h
  exact (scanWhitespace_suffix _).trans ((List.drop_suffix 1 _).trans (scanWhitespace_suffix s))

/-- What is read is taken from the text: by induction on the fuel, for the three functions at once. -/
theorem behind_all (fuel : ℕ) :
    (∀ s p, decodeFuel js fuel s = .ok p → Behind p.2 s) ∧
    (∀ index array s p, scanArrayFuel js fuel index array s = .ok p → Behind p.2 s) ∧
    ∀ object s p, scanObjectFuel js fuel object s = .ok p → Behind p.2 s := by
  induction fuel with
  | zero =>
    refine ⟨fun s p h => ?_, fun index array s p h => ?_, fun object s p h => ?_⟩ <;> cases h
  | succ fuel ih =>
    obtain ⟨ihvalue, iharray, ihobject⟩ := ih
    refine ⟨fun s p h => ?_, fun index array s p h => ?_, fun object s p h => ?_⟩
    · rw [decodeFuel] at h
      refine Behind.trans_suffix ?_ (scanWhitespace_suffix s)
      cases hs : scanWhitespace s with
      | nil => simp [hs] at h
      | cons c r =>
        rw [hs] at h
        dsimp only at h
        split_ifs at h
        · exact behind_cons (ihobject _ _ _ h).1 c
        · exact behind_cons (iharray _ _ _ _ h).1 c
        · exact behind_scanNumber h
        · exact behind_cons (behind_scanString h).1 c
        · obtain ⟨t, hcomment, h⟩ := bind_eq_ok.1 h
          have hopen := (behind_scanComment hcomment).trans_suffix (List.drop_suffix 1 r)
          exact behind_cons ((ihvalue _ _ h).trans hopen).1 c
        · exact behind_scanConstant h
    · rw [scanArrayFuel] at h
      refine Behind.trans_suffix ?_ (scanWhitespace_suffix s)
      obtain ⟨_, hmore, h⟩ := bind_eq_ok.1 h
      split_ifs at h
      · obtain rfl := Except.ok.inj h
        exact behind_drop (by decide) (ensure_eq_ok.1 hmore)
      · obtain ⟨-, -, h⟩ := bind_eq_ok.1 h
        obtain ⟨q, hvalue, h⟩ := bind_eq_ok.1 h
        exact ((iharray _ _ _ _ h).trans (ihvalue _ _ hvalue)).trans_suffix (skipComma_suffix _)
    · rw [scanObjectFuel] at h
      refine Behind.trans_suffix ?_ (scanWhitespace_suffix s)
      obtain ⟨_, hmore, h⟩ := bind_eq_ok.1 h
      split_ifs at h
      · obtain rfl := Except.ok.inj h
        exact behind_drop (by decide) (ensure_eq_ok.1 hmore)
      · obtain ⟨-, -, h⟩ := bind_eq_ok.1 h
        obtain ⟨key, hkey, h⟩ := bind_eq_ok.1 h
        obtain ⟨r, hcolon, h⟩ := bind_eq_ok.1 h
        obtain ⟨value, hvalue, h⟩ := bind_eq_ok.1 h
        obtain ⟨_, -, h⟩ := bind_eq_ok.1 h
        have hcolon' := (ihvalue _ _ hvalue).trans_suffix (scanColon_suffix hcolon)
        exact (((ihobject _ _ _ h).trans hcolon').trans (ihvalue _ _ hkey)).trans_suffix (skipComma_suffix _)

theorem behind_decodeFuel {fuel : ℕ} {p : LuaValue × List Byte} (h : decodeFuel js fuel s = .ok p) : Behind p.2 s :=
  (behind_all fuel).1 s p h

/-! ### Enough fuel -/

theorem bind_congr_ok {ε α β : Type} {x : Except ε α} {f g : α → Except ε β} (h : ∀ a, x = .ok a → f a = g a) :
    x >>= f = x >>= g := by
  cases x with
  | error e => rfl
  | ok a => exact h a rfl

theorem length_skipComma_le (s : List Byte) : (skipComma s).length ≤ s.length := (skipComma_suffix s).length_le

theorem length_scanWhitespace_le (s : List Byte) : (scanWhitespace s).length ≤ s.length := (scanWhitespace_suffix s).length_le

/-- More fuel than enough changes nothing: a call for a value needs twice the length of the text and one, and the loops
one more, since they may call it for the same text. -/
theorem fuel_all (fuel : ℕ) :
    (∀ s : List Byte, 2 * s.length + 1 ≤ fuel → decodeFuel js (fuel + 1) s = decodeFuel js fuel s) ∧
    (∀ (index : ℕ) (array : LuaEntries) (s : List Byte), 2 * s.length + 2 ≤ fuel →
      scanArrayFuel js (fuel + 1) index array s = scanArrayFuel js fuel index array s) ∧
    ∀ (object : LuaEntries) (s : List Byte), 2 * s.length + 2 ≤ fuel →
      scanObjectFuel js (fuel + 1) object s = scanObjectFuel js fuel object s := by
  induction fuel with
  | zero => exact ⟨fun _ h => by omega, fun _ _ _ h => by omega, fun _ _ h => by omega⟩
  | succ fuel ih =>
    obtain ⟨ihvalue, iharray, ihobject⟩ := ih
    refine ⟨fun s h => ?_, fun index array s h => ?_, fun object s h => ?_⟩
    · have hlength := length_scanWhitespace_le s
      conv_lhs => rw [decodeFuel]
      conv_rhs => rw [decodeFuel]
      cases hs : scanWhitespace s with
      | nil => rfl
      | cons c r =>
        rw [hs, List.length_cons] at hlength
        dsimp only
        rw [ihobject [] r (by omega), iharray 1 [] r (by omega)]
        split_ifs
        · rfl
        · rfl
        · rfl
        · rfl
        · refine bind_congr_ok fun t ht => ?_
          have hshort := ((behind_scanComment ht).trans_suffix (List.drop_suffix 1 r)).2
          exact ihvalue t (by omega)
        · rfl
    · have hlength := (length_skipComma_le (scanWhitespace s)).trans (length_scanWhitespace_le s)
      conv_lhs => rw [scanArrayFuel]
      conv_rhs => rw [scanArrayFuel]
      dsimp only
      rw [ihvalue _ (by omega)]
      refine bind_congr_ok fun _ _ => ?_
      split_ifs
      · rfl
      · refine bind_congr_ok fun _ _ => bind_congr_ok fun p hp => ?_
        have hshort := (behind_decodeFuel hp).2
        exact iharray _ _ _ (by omega)
    · have hlength := (length_skipComma_le (scanWhitespace s)).trans (length_scanWhitespace_le s)
      conv_lhs => rw [scanObjectFuel]
      conv_rhs => rw [scanObjectFuel]
      dsimp only
      rw [ihvalue _ (by omega)]
      refine bind_congr_ok fun _ _ => ?_
      split_ifs
      · rfl
      · refine bind_congr_ok fun _ _ => bind_congr_ok fun key hkey => bind_congr_ok fun r hr => ?_
        have hshort := ((behind_decodeFuel hkey).trans_suffix List.suffix_rfl).2
        have hcolon := (scanColon_suffix hr).length_le
        rw [ihvalue r (by omega)]
        refine bind_congr_ok fun value hvalue => bind_congr_ok fun object _ => ?_
        have hvalueShort := (behind_decodeFuel hvalue).2
        exact ihobject _ _ (by omega)

variable (js) in
/-- `json.decode`: the value and what is left of the text. -/
def decode (s : List Byte) : Except JsonError (LuaValue × List Byte) := decodeFuel js (2 * s.length + 1) s

variable (js) in
/-- `decode_scanArray`, from an element on. -/
def scanArray (index : ℕ) (array : LuaEntries) (s : List Byte) : Except JsonError (LuaValue × List Byte) :=
  scanArrayFuel js (2 * s.length + 2) index array s

variable (js) in
/-- `decode_scanObject`, from a key on. -/
def scanObject (object : LuaEntries) (s : List Byte) : Except JsonError (LuaValue × List Byte) :=
  scanObjectFuel js (2 * s.length + 2) object s

theorem decodeFuel_eq {fuel : ℕ} (h : 2 * s.length + 1 ≤ fuel) : decodeFuel js fuel s = decode js s := by
  induction fuel, h using Nat.le_induction with
  | base => rfl
  | succ fuel h ih => rw [(fuel_all fuel).1 s h, ih]

theorem scanArrayFuel_eq {fuel index : ℕ} {array : LuaEntries} (h : 2 * s.length + 2 ≤ fuel) :
    scanArrayFuel js fuel index array s = scanArray js index array s := by
  induction fuel, h using Nat.le_induction with
  | base => rfl
  | succ fuel h ih => rw [(fuel_all fuel).2.1 index array s h, ih]

theorem scanObjectFuel_eq {fuel : ℕ} {object : LuaEntries} (h : 2 * s.length + 2 ≤ fuel) :
    scanObjectFuel js fuel object s = scanObject js object s := by
  induction fuel, h using Nat.le_induction with
  | base => rfl
  | succ fuel h ih => rw [(fuel_all fuel).2.2 object s h, ih]

theorem behind_decode {p : LuaValue × List Byte} (h : decode js s = .ok p) : Behind p.2 s := behind_decodeFuel h

/-! ### The equations of the source -/

theorem decode_of_nil (h : scanWhitespace s = []) : decode js s = .error .unterminated := by
  rw [decode, decodeFuel, h]

theorem decode_of_cons (h : scanWhitespace s = b :: r) : decode js s =
    if b = 123 then scanObject js [] r
    else if b = 91 then scanArray js 1 [] r
    else if b ∈ acceptableChars then scanNumber js (b :: r)
    else if b = quotationMark ∨ b = apostrophe then scanString js b r
    else if asciiBytes "/*" <+: b :: r then scanComment (r.drop 1) >>= decode js
    else scanConstant (b :: r) := by
  have hlength := length_scanWhitespace_le s
  rw [h, List.length_cons] at hlength
  rw [decode, decodeFuel, h]
  dsimp only
  rw [scanObjectFuel_eq (by omega), scanArrayFuel_eq (by omega)]
  have hcomment : (scanComment (r.drop 1) >>= fun t => decodeFuel js (2 * s.length) t) = scanComment (r.drop 1) >>= decode js := by
    refine bind_congr_ok fun t ht => decodeFuel_eq ?_
    have hshort := ((behind_scanComment ht).trans_suffix (List.drop_suffix 1 r)).2
    omega
  rw [hcomment]

theorem scanArray_eq (index : ℕ) (array : LuaEntries) (s : List Byte) : scanArray js index array s = (do
    ensure (scanWhitespace s ≠ []) .arrayEnded
    if asciiBytes "]" <+: scanWhitespace s then return (.table array, (scanWhitespace s).drop 1)
    let s := skipComma (scanWhitespace s)
    ensure (s ≠ []) .arrayEnded
    let p ← decode js s
    scanArray js (index + 1) (tableSet array (indexKey index) p.1) p.2) := by
  have hlength := (length_skipComma_le (scanWhitespace s)).trans (length_scanWhitespace_le s)
  rw [scanArray, scanArrayFuel]
  dsimp only
  rw [decodeFuel_eq (by omega)]
  refine bind_congr_ok fun _ _ => ?_
  split_ifs
  · rfl
  · refine bind_congr_ok fun _ _ => bind_congr_ok fun p hp => scanArrayFuel_eq ?_
    have hshort := (behind_decode hp).2
    omega

theorem scanObject_eq (object : LuaEntries) (s : List Byte) : scanObject js object s = (do
    ensure (scanWhitespace s ≠ []) .objectEnded
    if asciiBytes "\x7d" <+: scanWhitespace s then return (.table object, (scanWhitespace s).drop 1)
    let s := skipComma (scanWhitespace s)
    ensure (s ≠ []) .objectEnded
    let key ← decode js s
    let s ← scanColon key.1 key.2
    let value ← decode js s
    scanObject js (← assignKey object key.1 value.1) value.2) := by
  have hlength := (length_skipComma_le (scanWhitespace s)).trans (length_scanWhitespace_le s)
  rw [scanObject, scanObjectFuel]
  dsimp only
  rw [decodeFuel_eq (by omega)]
  refine bind_congr_ok fun _ _ => ?_
  split_ifs
  · rfl
  · refine bind_congr_ok fun _ _ => bind_congr_ok fun key hkey => bind_congr_ok fun r hr => ?_
    have hshort := (behind_decode hkey).2
    have hcolon := (scanColon_suffix hr).length_le
    rw [decodeFuel_eq (by omega)]
    refine bind_congr_ok fun value hvalue => bind_congr_ok fun object _ => scanObjectFuel_eq ?_
    have hvalueShort := (behind_decode hvalue).2
    omega

/-! ### No text is too long -/

theorem bind_ne_error {ε α β : Type} {x : Except ε α} {f : α → Except ε β} {e : ε} (hx : x ≠ .error e)
    (hf : ∀ a, x = .ok a → f a ≠ .error e) : (x >>= f) ≠ .error e := by
  cases x with
  | error e' => exact fun h => hx (congrArg _ (Except.error.inj h))
  | ok a => exact hf a rfl

theorem ensure_ne_fuel {c : Prop} [Decidable c] {e : JsonError} (he : e ≠ .fuel) : ensure c e ≠ .error .fuel := by
  rw [ensure]
  split_ifs
  · simp
  · simpa using he

theorem scanComment_ne_fuel (s : List Byte) : scanComment s ≠ .error .fuel := by
  induction s with
  | nil => simp [scanComment]
  | cons b s ih =>
    rw [scanComment]
    split_ifs
    · simp
    · exact ih

theorem scanConstant_ne_fuel (s : List Byte) : scanConstant s ≠ .error .fuel := by
  rw [scanConstant]
  split_ifs <;> simp

theorem scanNumber_ne_fuel (s : List Byte) : scanNumber js s ≠ .error .fuel := by
  cases s with
  | nil => simp [scanNumber]
  | cons c s =>
    rw [scanNumber]
    cases js.load (c :: s.takeWhile (· ∈ acceptableChars)) <;> simp

theorem scanStringTurn_ne_fuel {quote : Byte} (s : List Byte) : scanStringTurn js quote s ≠ .error .fuel := by
  rw [scanStringTurn]
  split
  · simp
  · simp
  · simp
  · split_ifs
    · simp
    · rw [scanUnicode]
      split <;> simp [Except.map]
    · simp

theorem scanString_ne_fuel {quote : Byte} (s : List Byte) : scanString js quote s ≠ .error .fuel := by
  have hloop (t : List Byte) : scanStringLoop js quote t s ≠ .error .fuel := by
    fun_induction scanStringLoop js quote t s with
    | case1 => simp
    | case2 t s hquote e hturn => exact hturn ▸ scanStringTurn_ne_fuel s
    | case3 t s hquote q hturn ih => exact ih
  rw [scanString]
  cases h : scanStringLoop js quote [] s with
  | error e => 
    have := hloop []
    rw [h] at this
    simpa [Except.map] using this
  | ok p => simp [Except.map]

theorem scanColon_ne_fuel {key : LuaValue} (s : List Byte) : scanColon key s ≠ .error .fuel := by
  rw [scanColon]
  refine bind_ne_error (ensure_ne_fuel (by decide)) fun _ _ => bind_ne_error (ensure_ne_fuel (by decide)) fun _ _ => ?_
  refine bind_ne_error (ensure_ne_fuel (by decide)) fun _ _ => bind_ne_error (ensure_ne_fuel (by decide)) fun _ _ => ?_
  refine bind_ne_error (ensure_ne_fuel (by decide)) fun _ _ => ?_
  simp [pure, Except.pure]

theorem assignKey_ne_fuel {object : LuaEntries} {key value : LuaValue} : assignKey object key value ≠ .error .fuel := by
  rw [assignKey]
  split <;> simp

/-- With enough fuel it is not the fuel that ends a call. -/
theorem ne_fuel_all (fuel : ℕ) :
    (∀ s : List Byte, 2 * s.length + 1 ≤ fuel → decodeFuel js fuel s ≠ .error .fuel) ∧
    (∀ (index : ℕ) (array : LuaEntries) (s : List Byte), 2 * s.length + 2 ≤ fuel →
      scanArrayFuel js fuel index array s ≠ .error .fuel) ∧
    ∀ (object : LuaEntries) (s : List Byte), 2 * s.length + 2 ≤ fuel → scanObjectFuel js fuel object s ≠ .error .fuel := by
  induction fuel with
  | zero => exact ⟨fun _ h => by omega, fun _ _ _ h => by omega, fun _ _ h => by omega⟩
  | succ fuel ih =>
    obtain ⟨ihvalue, iharray, ihobject⟩ := ih
    refine ⟨fun s h => ?_, fun index array s h => ?_, fun object s h => ?_⟩
    · have hlength := length_scanWhitespace_le s
      rw [decodeFuel]
      cases hs : scanWhitespace s with
      | nil => simp
      | cons c r =>
        rw [hs, List.length_cons] at hlength
        dsimp only
        split_ifs
        · exact ihobject [] r (by omega)
        · exact iharray 1 [] r (by omega)
        · exact scanNumber_ne_fuel _
        · exact scanString_ne_fuel r
        · refine bind_ne_error (scanComment_ne_fuel _) fun t ht => ?_
          have hshort := ((behind_scanComment ht).trans_suffix (List.drop_suffix 1 r)).2
          exact ihvalue t (by omega)
        · exact scanConstant_ne_fuel _
    · have hlength := (length_skipComma_le (scanWhitespace s)).trans (length_scanWhitespace_le s)
      rw [scanArrayFuel]
      refine bind_ne_error (ensure_ne_fuel (by decide)) fun _ _ => ?_
      split_ifs
      · simp [pure, Except.pure]
      · refine bind_ne_error (ensure_ne_fuel (by decide)) fun _ _ => bind_ne_error (ihvalue _ (by omega)) fun p hp => ?_
        have hshort := (behind_decodeFuel hp).2
        exact iharray _ _ _ (by omega)
    · have hlength := (length_skipComma_le (scanWhitespace s)).trans (length_scanWhitespace_le s)
      rw [scanObjectFuel]
      refine bind_ne_error (ensure_ne_fuel (by decide)) fun _ _ => ?_
      split_ifs
      · simp [pure, Except.pure]
      · refine bind_ne_error (ensure_ne_fuel (by decide)) fun _ _ => bind_ne_error (ihvalue _ (by omega)) fun key hkey => ?_
        have hshort := (behind_decodeFuel hkey).2
        refine bind_ne_error (scanColon_ne_fuel _) fun r hr => ?_
        have hcolon := (scanColon_suffix hr).length_le
        refine bind_ne_error (ihvalue r (by omega)) fun value hvalue => ?_
        have hvalueShort := (behind_decodeFuel hvalue).2
        exact bind_ne_error assignKey_ne_fuel fun object _ => ihobject _ _ (by omega)

/-- **`json.decode` ends on every text.** What it returns has taken something of the text and leaves the rest as it is,
and more fuel than that changes nothing. -/
theorem decode_ends (s : List Byte) : decode js s ≠ .error .fuel ∧ (∀ p, decode js s = .ok p → Behind p.2 s) ∧
    ∀ fuel, 2 * s.length + 1 ≤ fuel → decodeFuel js fuel s = decode js s :=
  ⟨(ne_fuel_all _).1 s le_rfl, fun _ => behind_decode, fun _ => decodeFuel_eq⟩

end Slam.Json
