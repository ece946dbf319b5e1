import Slam.Tools.Equal

/-!
# `tools/json.lua`: the parts of a text

A text is scanned from a position on; here the position is the part of the text from there. What Lua and the C
library do with the texts of numbers is in `JsonRuntime`.

* `encodeString`: a string with its escapes, as `json_private.encodeString` writes it;
* `scanWhitespace`, `scanComment`, `scanConstant`, `scanNumber`, `scanString`: what `json.decode` is made of;
* `readString`: a string read byte by byte;
* `toOption_scanStringLoop`: the loop of `decode_scanString`, which goes from escape to escape, reads the same.
-/

namespace Slam.Json

/-! ### What the text is made of -/

/-- `"` -/
def quotationMark : Byte := 34

/-- `'` -/
def apostrophe : Byte := 39

/-- The backslash. -/
def backslash : Byte := 92

/-- The letter of an escape `\u`. -/
def unicodeLetter : Byte := 117

/-- `acceptableChars` of `decode_scanNumber`. -/
def acceptableChars : List Byte := asciiBytes "+-0123456789.e"

/-- `whitespace` of `decode_scanWhitespace`. -/
def whitespace : List Byte := [32, 10, 13, 9]

theorem forall_mem_of_all {p : Byte → Prop} [DecidablePred p] {l : List Byte} (h : (l.all fun b => decide (p b)) = true) :
    ∀ b ∈ l, p b := by
  simpa using h

/-- `tostring` of a boolean. -/
def booleanText (b : Bool) : List Byte := asciiBytes (if b then "true" else "false")

/-- What is raised. -/
inductive JsonError
  /-- `encode attempt to encode unsupported type` -/
  | unsupported (type : LuaType)
  /-- The loop over the elements of an array does not end before memory does. -/
  | endless
  /-- `Unterminated JSON encoded object found at position in` -/
  | unterminated
  /-- `JSON String ended unexpectedly scanning array.` -/
  | arrayEnded
  /-- `JSON string ended unexpectedly while scanning object.` -/
  | objectEnded
  /-- `JSON string ended unexpectedly searching for value of key` -/
  | valueMissing
  /-- `JSON object key-value assignment mal-formed at` -/
  | assignment
  /-- `Unterminated comment in string at` -/
  | comment
  /-- `Failed to scan constant from string` -/
  | constant
  /-- `Failed to scan number`, or the expression that was scanned raises itself. -/
  | number
  /-- `String decoding failed: bad Unicode escape` -/
  | unicode
  /-- A key is concatenated with a message that is neither a string nor a number. -/
  | concatenate
  /-- `table index is NaN` -/
  | indexNaN
  /-- Arithmetic on nil. -/
  | arithNil
  /-- nil is compared with a number. -/
  | compareNil
  /-- The model has run out of fuel. -/
  | fuel
  deriving DecidableEq

/-- What `json.lua` needs of Lua and of the C library, with what is documented of it. -/
structure JsonRuntime extends LuaRuntime where
  /-- `json.null`, a function. -/
  null : ℕ
  /-- `tostring` of an object that is a table or `json.null`; none is here for an object of another type. -/
  objectText : ℕ → Option (List Byte)
  /-- `tonumber(a, 16)` -/
  hexNumber : List Byte → Option ℤ
  /-- The value of a chunk that is `return` and the text. None stands for one that does not compile, or raises. -/
  load : List Byte → Option LuaValue
  /-- A finite number is written with digits, signs, a point and an exponent. -/
  finite_text : ∀ (x : Double) (q : ℚ), x.value = .finite q →
    numberText x ≠ [] ∧ ∀ b ∈ numberText x, b ∈ acceptableChars
  /-- Infinities and NaN are written in letters. -/
  infinite_text : ∀ x : Double, (∀ q, x.value ≠ .finite q) →
    numberText x ∈ [asciiBytes "inf", asciiBytes "-inf", asciiBytes "nan", asciiBytes "-nan"]
  /-- A sign alone is no expression. -/
  load_minus : load (asciiBytes "-") = none

/-! ### Strings as they are written -/

/-- `escapeList`: the letter behind the backslash. -/
def escapeLetter : Byte → Option Byte
  | 34 => some 34
  | 92 => some 92
  | 47 => some 47
  | 8 => some 98
  | 12 => some 102
  | 10 => some 110
  | 13 => some 114
  | 9 => some 116
  | _ => none

/-- What is written for one byte. -/
def escapeByte (b : Byte) : List Byte :=
  match escapeLetter b with
  | some c => [backslash, c]
  | none => [b]

/-- `json_private.encodeString` of a string. -/
def encodeString (s : List Byte) : List Byte := s.flatMap escapeByte

/-- `escapeSequences`: the letter itself, except for five of them. -/
def unescape : Byte → Byte
  | 116 => 9
  | 102 => 12
  | 114 => 13
  | 110 => 10
  | 98 => 8
  | c => c

theorem unescape_escapeLetter {b c : Byte} (h : escapeLetter b = some c) : unescape c = b ∧ c ≠ unicodeLetter := by
  unfold escapeLetter at h
  split at h <;> simp_all only [Option.some.injEq, reduceCtorEq] <;> subst h <;> decide

theorem escapeLetter_eq_none {b : Byte} (h : escapeLetter b = none) : b ≠ quotationMark ∧ b ≠ backslash := by
  constructor <;> rintro rfl <;> exact absurd h (by decide)

/-! ### Scanning -/

/-- `decode_scanWhitespace` -/
def scanWhitespace (s : List Byte) : List Byte := s.dropWhile (· ∈ whitespace)

/-- `decode_scanComment`, from behind the opening of the comment. -/
def scanComment : List Byte → Except JsonError (List Byte)
  | [] => .error .comment
  | b :: s => if asciiBytes "*/" <+: b :: s then .ok (s.drop 1) else scanComment s

/-- `decode_scanConstant` -/
def scanConstant (s : List Byte) : Except JsonError (LuaValue × List Byte) :=
  if asciiBytes "true" <+: s then .ok (.boolean true, s.drop 4)
  else if asciiBytes "false" <+: s then .ok (.boolean false, s.drop 5)
  else if asciiBytes "null" <+: s then .ok (.nil, s.drop 4)
  else .error .constant

/-- The UTF-8 code of a number, as `decode_scanString` puts it together. -/
def unicodeBytes (n : ℤ) : List Byte :=
  let char (k : ℤ) : Byte := UInt8.ofNat k.toNat
  if n < 0x80 then [char (n % 0x80)]
  else if n < 0x800 then [char (0xC0 + n / 64 % 0x20), char (0x80 + n % 0x40)]
  else [char (0xE0 + n / 4096 % 0x10), char (0x80 + n / 64 % 0x40), char (0x80 + n % 0x40)]

/-- `string.find` of one character. -/
def findByte (b : Byte) (s : List Byte) : Option ℕ := s.findIdx? (· = b)

/-- `string.find(s, "\\.")`: a backslash and whatever comes behind it. -/
def findEscape (s : List Byte) : Option ℕ := s.dropLast.findIdx? (· = backslash)

variable (js : JsonRuntime)

/-- `decode_scanNumber`, at a character that is acceptable. -/
def scanNumber : List Byte → Except JsonError (LuaValue × List Byte)
  | [] => .error .number
  | c :: s =>
    match js.load (c :: s.takeWhile (· ∈ acceptableChars)) with
    | none => .error .number
    | some v => .ok (v, s.dropWhile (· ∈ acceptableChars))

/-- An escape `\u` of `decode_scanString`, behind the letter. -/
def scanUnicode (s : List Byte) : Except JsonError (List Byte × List Byte) :=
  match js.hexNumber (s.take 4) with
  | none => .error .unicode
  | some n => .ok (unicodeBytes n, s.drop 4)

/-- One turn of the loop of `decode_scanString`: what it inserts, and the text behind it. -/
def scanStringTurn (quote : Byte) (s : List Byte) : Except JsonError (List Byte × List Byte) :=
  match findEscape s, findByte quote s with
  | none, none => .error .arithNil
  | some _, none => .error .compareNil
  | none, some x => .ok (s.take x, s.drop x)
  | some i, some x =>
    if x < i then .ok (s.take x, s.drop x)
    else if s.getD (i + 1) 0 = unicodeLetter then
      (scanUnicode js (s.drop (i + 2))).map fun p => (s.take i ++ p.1, p.2)
    else .ok (s.take i ++ [unescape (s.getD (i + 1) 0)], s.drop (i + 2))

theorem length_lt_of_findByte {b : Byte} {s : List Byte} {x : ℕ} (h : findByte b s = some x) : x < s.length :=
  (List.findIdx?_eq_some_iff_findIdx_eq.1 h).1

/-- A turn takes something of the text, since the text does not go on with the quote. -/
theorem exists_drop_of_scanStringTurn {quote : Byte} {s : List Byte} {p : List Byte × List Byte}
    (hquote : findByte quote s ≠ some 0) (h : scanStringTurn js quote s = .ok p) :
    s ≠ [] ∧ ∃ k, k ≠ 0 ∧ p.2 = s.drop k := by
  cases hx : findByte quote s with
  | none => cases hi : findEscape s <;> simp [scanStringTurn, hi, hx] at h
  | some x =>
    have hlt := length_lt_of_findByte hx
    have hpos : x ≠ 0 := fun hzero => hquote (hzero ▸ hx)
    refine ⟨List.ne_nil_of_length_pos (by omega), ?_⟩
    rw [scanStringTurn, hx] at h
    cases hi : findEscape s with
    | none =>
      rw [hi] at h
      obtain rfl := Except.ok.inj h
      exact ⟨x, hpos, rfl⟩
    | some i =>
      rw [hi] at h
      dsimp only at h
      split_ifs at h
      · obtain rfl := Except.ok.inj h
        exact ⟨x, hpos, rfl⟩
      · rw [scanUnicode] at h
        cases hhex : js.hexNumber ((s.drop (i + 2)).take 4) with
        | none => simp [hhex, Except.map] at h
        | some n =>
          rw [hhex] at h
          obtain rfl := Except.ok.inj h
          exact ⟨i + 2 + 4, by omega, List.drop_drop⟩
      · obtain rfl := Except.ok.inj h
        exact ⟨i + 2, by omega, rfl⟩

theorem length_scanStringTurn {quote : Byte} {s : List Byte} {p : List Byte × List Byte} (hquote : findByte quote s ≠ some 0)
    (h : scanStringTurn js quote s = .ok p) : p.2.length < s.length := by
  obtain ⟨hs, k, hk, hdrop⟩ := exists_drop_of_scanStringTurn js hquote h
  have hlength := List.length_pos_iff.2 hs
  rw [hdrop, List.length_drop]
  omega

/-- The loop of `decode_scanString`, behind the quote that opens the string. -/
def scanStringLoop (quote : Byte) (t s : List Byte) : Except JsonError (List Byte × List Byte) :=
  if _hquote : findByte quote s = some 0 then .ok (t, s.drop 1)
  else
    match _hturn : scanStringTurn js quote s with
    | .error e => .error e
    | .ok p => scanStringLoop quote (t ++ p.1) p.2
termination_by s.length
decreasing_by exact length_scanStringTurn js ‹_› ‹_›

/-- `decode_scanString`, behind the quote that opens the string. -/
def scanString (quote : Byte) (s : List Byte) : Except JsonError (LuaValue × List Byte) :=
  (scanStringLoop js quote [] s).map fun p => (.string p.1, p.2)

/-! ### Strings byte by byte -/

/-- A string read byte by byte, behind the quote that opens it. -/
def readString (quote : Byte) : List Byte → Option (List Byte × List Byte)
  | [] => none
  | b :: s =>
    if b = quote then some ([], s)
    else if b = backslash then
      match s with
      | [] => none
      | c :: s =>
        if c = unicodeLetter then do
          let n ← js.hexNumber (s.take 4)
          let p ← readString quote (s.drop 4)
          return (unicodeBytes n ++ p.1, p.2)
        else do
          let p ← readString quote s
          return (unescape c :: p.1, p.2)
    else do
      let p ← readString quote s
      return (b :: p.1, p.2)
termination_by s => s.length
decreasing_by all_goals simp_wf <;> omega

variable {js} {quote b c : Byte} {t s : List Byte}

theorem findByte_cons (b c : Byte) (s : List Byte) :
    findByte b (c :: s) = if c = b then some 0 else (findByte b s).map (· + 1) := by
  simp [findByte, List.findIdx?_cons]

theorem findByte_eq_none_iff : findByte b s = none ↔ b ∉ s := by
  simp only [findByte, List.findIdx?_eq_none_iff, decide_eq_false_iff_not]
  exact ⟨fun h hmem => h b hmem rfl, fun h c hc heq => h (heq ▸ hc)⟩

theorem findEscape_cons (hb : b ≠ backslash) (s : List Byte) : findEscape (b :: s) = (findEscape s).map (· + 1) := by
  cases s with
  | nil => rfl
  | cons c s => simp [findEscape, List.findIdx?_cons, hb]

theorem findEscape_backslash (c : Byte) (s : List Byte) : findEscape (backslash :: c :: s) = some 0 := by
  simp [findEscape, List.findIdx?_cons]

theorem scanStringLoop_quote (t s : List Byte) : scanStringLoop js quote t (quote :: s) = .ok (t, s) := by
  have hfound : findByte quote (quote :: s) = some 0 := by rw [findByte_cons, if_pos rfl]
  rw [scanStringLoop, dif_pos hfound]
  rfl

theorem scanStringLoop_turn (hquote : findByte quote s ≠ some 0) : scanStringLoop js quote t s =
    (scanStringTurn js quote s).bind fun p => scanStringLoop js quote (t ++ p.1) p.2 := by
  rw [scanStringLoop, dif_neg hquote]
  split
  · next e hturn => rw [hturn]; rfl
  · next p hturn => rw [hturn]; rfl

/-- A plain byte in front only makes the turn take more. -/
theorem scanStringTurn_cons (hquote : b ≠ quote) (hb : b ≠ backslash) (s : List Byte) :
    scanStringTurn js quote (b :: s) = (scanStringTurn js quote s).map fun p => (b :: p.1, p.2) := by
  have hfirst : findByte quote (b :: s) = (findByte quote s).map (· + 1) := by rw [findByte_cons, if_neg hquote]
  unfold scanStringTurn
  rw [hfirst, findEscape_cons hb]
  cases findByte quote s with
  | none => cases findEscape s <;> rfl
  | some x =>
    cases findEscape s with
    | none => rfl
    | some i =>
      simp only [Option.map_some, Nat.add_lt_add_iff_right, List.take_succ_cons, List.drop_succ_cons, List.getD_cons_succ,
        List.cons_append]
      split_ifs
      · rfl
      · cases scanUnicode js (s.drop (i + 2)) <;> rfl
      · rfl

/-- In front of the quote that closes the string, the turn takes the byte. -/
theorem scanStringTurn_last (hquote : b ≠ quote) (hb : b ≠ backslash) (hs : quote ≠ backslash) :
    scanStringTurn js quote (b :: quote :: s) = .ok ([b], quote :: s) := by
  have hfirst : findByte quote (b :: quote :: s) = some 1 := by
    rw [findByte_cons, if_neg hquote, findByte_cons, if_pos rfl]
    rfl
  unfold scanStringTurn
  rw [hfirst, findEscape_cons hb, findEscape_cons hs]
  cases findEscape s with
  | none => rfl
  | some i =>
    have hlt : 1 < i + 1 + 1 := by omega
    exact if_pos hlt

/-- The loop may as well take a plain byte by itself. -/
theorem scanStringLoop_cons (hquote : b ≠ quote) (hb : b ≠ backslash) (hs : quote ≠ backslash) (t s : List Byte) :
    scanStringLoop js quote t (b :: s) = scanStringLoop js quote (t ++ [b]) s := by
  have hnot : findByte quote (b :: s) ≠ some 0 := by
    rw [findByte_cons, if_neg hquote]
    cases findByte quote s <;> simp
  rw [scanStringLoop_turn hnot]
  by_cases hnext : findByte quote s = some 0
  · obtain ⟨s, rfl⟩ : ∃ s', s = quote :: s' := by
      cases s with
      | nil => cases hnext
      | cons c s =>
        rw [findByte_cons] at hnext
        split_ifs at hnext with hc
        · exact ⟨s, by rw [hc]⟩
        · cases hfound : findByte quote s <;> simp [hfound] at hnext
    rw [scanStringTurn_last hquote hb hs]
    rfl
  · rw [scanStringTurn_cons hquote hb, scanStringLoop_turn hnext]
    cases scanStringTurn js quote s with
    | error e => rfl
    | ok p => exact congrArg (scanStringLoop js quote · p.2) (List.append_cons t b p.1)

/-- At a backslash the turn takes two bytes, or an escape `\u` with its four digits; but it wants the closing quote to be
somewhere behind. -/
theorem scanStringTurn_backslash (hs : quote ≠ backslash) (hmem : quote ∈ c :: s) :
    scanStringTurn js quote (backslash :: c :: s) =
      if c = unicodeLetter then scanUnicode js s else .ok ([unescape c], s) := by
  obtain ⟨x, hx⟩ : ∃ x, findByte quote (backslash :: c :: s) = some (x + 1) := by
    rw [findByte_cons, if_neg hs.symm]
    cases hfound : findByte quote (c :: s) with
    | none => exact absurd hmem (findByte_eq_none_iff.1 hfound)
    | some x => exact ⟨x, rfl⟩
  unfold scanStringTurn
  rw [findEscape_backslash, hx]
  show (if c = unicodeLetter then (scanUnicode js s).map fun p => ([] ++ p.1, p.2) else _) = _
  split_ifs
  · cases scanUnicode js s <;> rfl
  · rfl

/-- No string is read without the quote that closes it. -/
theorem mem_of_readString {p : List Byte × List Byte} (h : readString js quote s = some p) : quote ∈ s := by
  fun_induction readString js quote s generalizing p with
  | case1 => cases h
  | case2 => exact List.mem_cons_self
  | case3 => cases h
  | case4 s _ ih =>
    obtain ⟨n, -, h⟩ := Option.bind_eq_some_iff.1 h
    obtain ⟨q, hq, -⟩ := Option.bind_eq_some_iff.1 h
    exact List.mem_cons_of_mem _ (List.mem_cons_of_mem _ (List.mem_of_mem_drop (ih hq)))
  | case5 c s _ _ ih =>
    obtain ⟨q, hq, -⟩ := Option.bind_eq_some_iff.1 h
    exact List.mem_cons_of_mem _ (List.mem_cons_of_mem _ (ih hq))
  | case6 b s _ _ ih =>
    obtain ⟨q, hq, -⟩ := Option.bind_eq_some_iff.1 h
    exact List.mem_cons_of_mem _ (ih hq)

/-- Without a quote in the text the loop raises. -/
theorem toOption_scanStringLoop_of_notMem (h : quote ∉ s) (t : List Byte) :
    (scanStringLoop js quote t s).toOption = none := by
  have hnone : findByte quote s = none := findByte_eq_none_iff.2 h
  have hnot : findByte quote s ≠ some 0 := by rw [hnone]; simp
  rw [scanStringLoop_turn hnot, scanStringTurn, hnone]
  cases findEscape s <;> rfl

theorem readString_of_notMem (h : quote ∉ s) : readString js quote s = none :=
  Option.eq_none_iff_forall_ne_some.2 fun _ hp => h (mem_of_readString hp)

/-- **The loop of `decode_scanString` reads a string byte by byte**: it raises exactly where there is no string. -/
theorem toOption_scanStringLoop (hs : quote ≠ backslash) (t s : List Byte) :
    (scanStringLoop js quote t s).toOption = (readString js quote s).map fun p => (t ++ p.1, p.2) := by
  have hescape (c : Byte) (s : List Byte) : findByte quote (backslash :: c :: s) ≠ some 0 := by
    rw [findByte_cons, if_neg hs.symm]
    cases findByte quote (c :: s) <;> simp
  fun_induction readString js quote s generalizing t with
  | case1 => exact toOption_scanStringLoop_of_notMem List.not_mem_nil t
  | case2 s =>
    rw [scanStringLoop_quote]
    simp [Except.toOption]
  | case3 =>
    refine toOption_scanStringLoop_of_notMem ?_ t
    rw [List.mem_singleton]
    exact hs
  | case4 s hquote ih =>
    by_cases hmem : quote ∈ unicodeLetter :: s
    · rw [scanStringLoop_turn (hescape _ s), scanStringTurn_backslash hs hmem, if_pos rfl, scanUnicode]
      cases js.hexNumber (s.take 4) with
      | none => rfl
      | some n =>
        refine (ih _).trans ?_
        cases readString js quote (s.drop 4) with
        | none => rfl
        | some p => exact congrArg (fun u => some (u, p.2)) (List.append_assoc ..)
    · have hdrop : quote ∉ s.drop 4 := fun h => hmem (List.mem_cons_of_mem _ (List.mem_of_mem_drop h))
      rw [toOption_scanStringLoop_of_notMem (List.not_mem_cons_of_ne_of_not_mem hs hmem), readString_of_notMem hdrop]
      cases js.hexNumber (s.take 4) <;> rfl
  | case5 c s hc hquote ih =>
    by_cases hmem : quote ∈ c :: s
    · rw [scanStringLoop_turn (hescape c s), scanStringTurn_backslash hs hmem, if_neg hc]
      refine (ih _).trans ?_
      cases readString js quote s with
      | none => rfl
      | some p => exact congrArg (fun u => some (u, p.2)) (List.append_cons t _ p.1).symm
    · have htail : quote ∉ s := fun h => hmem (List.mem_cons_of_mem _ h)
      rw [toOption_scanStringLoop_of_notMem (List.not_mem_cons_of_ne_of_not_mem hs hmem), readString_of_notMem htail]
      rfl
  | case6 b s hquote hb ih =>
    rw [scanStringLoop_cons hquote hb hs, ih]
    cases readString js quote s with
    | none => rfl
    | some p => exact congrArg (fun u => some (u, p.2)) (List.append_cons t b p.1).symm

theorem readString_quote (quote : Byte) (s : List Byte) : readString js quote (quote :: s) = some ([], s) := by
  rw [readString.eq_def]
  exact if_pos rfl

theorem readString_plain (hquote : b ≠ quote) (hb : b ≠ backslash) (s : List Byte) :
    readString js quote (b :: s) = (readString js quote s).map fun p => (b :: p.1, p.2) := by
  rw [readString.eq_def]
  dsimp only
  rw [if_neg hquote, if_neg hb]
  cases readString js quote s <;> rfl

theorem readString_escape (hs : quote ≠ backslash) (hc : c ≠ unicodeLetter) (s : List Byte) :
    readString js quote (backslash :: c :: s) = (readString js quote s).map fun p => (unescape c :: p.1, p.2) := by
  rw [readString.eq_def]
  dsimp only
  rw [if_neg hs.symm, if_pos rfl, if_neg hc]
  cases readString js quote s <;> rfl

/-- What is written is read. -/
theorem readString_encodeString (s rest : List Byte) :
    readString js quotationMark (encodeString s ++ quotationMark :: rest) = some (s, rest) := by
  induction s with
  | nil => exact readString_quote quotationMark rest
  | cons b s ih =>
    rw [encodeString, List.flatMap_cons, ← encodeString, List.append_assoc, escapeByte]
    cases hletter : escapeLetter b with
    | none =>
      obtain ⟨hquote, hb⟩ := escapeLetter_eq_none hletter
      exact (readString_plain hquote hb _).trans (congrArg (Option.map _) ih)
    | some c =>
      obtain ⟨rfl, hc⟩ := unescape_escapeLetter hletter
      exact (readString_escape (by decide) hc _).trans (congrArg (Option.map _) ih)

/-- **Every string comes back**, whatever bytes are in it. -/
theorem scanString_encodeString (s rest : List Byte) :
    scanString js quotationMark (encodeString s ++ quotationMark :: rest) = .ok (.string s, rest) := by
  have hread : (scanStringLoop js quotationMark [] (encodeString s ++ quotationMark :: rest)).toOption = some (s, rest) := by
    rw [toOption_scanStringLoop (by decide), readString_encodeString]
    rfl
  rw [scanString]
  cases hloop : scanStringLoop js quotationMark [] (encodeString s ++ quotationMark :: rest) with
  | error e => simp [hloop, Except.toOption] at hread
  | ok p =>
    rw [hloop] at hread
    obtain rfl := Option.some.inj hread
    rfl

/-- Strings are read byte by byte between quotation marks, and between apostrophes as well. -/
theorem toOption_scanString (s : List Byte) :
    (scanString js quotationMark s).toOption = (readString js quotationMark s).map (fun p => (.string p.1, p.2)) ∧
      (scanString js apostrophe s).toOption = (readString js apostrophe s).map fun p => (.string p.1, p.2) := by
  have hquote (quote : Byte) (hs : quote ≠ backslash) :
      (scanString js quote s).toOption = (readString js quote s).map fun p => (.string p.1, p.2) := by
    have hread : (scanStringLoop js quote [] s).toOption = (readString js quote s).map fun p => ([] ++ p.1, p.2) :=
      toOption_scanStringLoop hs [] s
    have hloop := congrArg (Option.map fun p : List Byte × List Byte => (LuaValue.string p.1, p.2)) hread
    rw [Option.map_map] at hloop
    refine Eq.trans ?_ hloop
    rw [scanString]
    cases scanStringLoop js quote [] s <;> rfl
  exact ⟨hquote quotationMark (by decide), hquote apostrophe (by decide)⟩

end Slam.Json
