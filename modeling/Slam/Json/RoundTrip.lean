import Slam.Json.Decode

/-!
# What comes back through a text

* `reread`: what a value becomes when it is encoded and decoded, by recursion on the value;
* `reads`: the value is read from its text, whatever follows it;
* `decode_encode`: what the two functions make of a value, one after the other.
-/

namespace Slam.Json

variable (js : JsonRuntime)

/-! ### What a value becomes -/

/-- What is read where a number has been written. -/
def rereadNumber (x : Double) : Except JsonError LuaValue :=
  match x.value with
  | .finite _ =>
    match js.load (js.numberText x) with
    | none => .error .number
    | some v => .ok v
  | _ => .error (if asciiBytes "-" <+: js.numberText x then .number else .constant)

/-- The array from an index on, when its elements have been read. -/
def fillArray (index : ℕ) (array : LuaEntries) (vs : List LuaValue) : LuaEntries :=
  (vs.zipIdx index).foldl (fun t e => tableSet t (indexKey e.2) e.1) array

/-- The object when its entries have been read. -/
def fillObject (object : LuaEntries) (es : List (List Byte × LuaValue)) : LuaEntries :=
  es.foldl (fun t e => tableSet t (.string e.1) e.2) object

/-- What a value becomes. -/
def reread : LuaValue → Except JsonError LuaValue
  | .nil => .ok .nil
  | .string s => .ok (.string s)
  | .number x => rereadNumber js x
  | .boolean b => .ok (.boolean b)
  | .table es =>
    match isArray js es with
    | some maxCount => do
      let vs ← (List.range' 1 (maxCount.untopD 0)).mapM fun i => reread (tableGet es (indexKey i))
      return .table (fillArray 1 [] vs)
    | none => do
      let vs ← (objectEntries js es).attach.mapM fun p => do return (p.1.1, ← reread p.1.2)
      return .table (fillObject [] vs)
  | .function _ => .ok .nil
  | .object _ => .ok .nil
termination_by v => sizeOf v
decreasing_by
  · exact sizeOf_tableGet_lt es (indexKey i)
  · exact sizeOf_objectEntries_lt js p.2

variable {js} {s t rest : List Byte} {v w : LuaValue} {es : LuaEntries}

theorem mapM_attach {ε α β : Type} (l : List α) (f : α → Except ε β) : (l.attach.mapM fun p => f p.1) = l.mapM f := by
  conv_rhs => rw [← List.attach_map_subtype_val l, List.mapM_map]
  rfl

theorem encode_array {maxCount : WithTop ℕ} (h : isArray js es = some maxCount) (hmax : ¬ lastIndex < maxCount) :
    encode js (.table es) = ((List.range' 1 (maxCount.untopD 0)).map fun i => tableGet es (indexKey i)).mapM (encode js) >>=
      fun rval => pure (asciiBytes "[" ++ concat rval ++ asciiBytes "]") := by
  rw [encode, h]
  dsimp only
  rw [if_neg hmax, List.mapM_map]
  rfl

/-- The text of an entry of an object. -/
def entryText (js : JsonRuntime) (p : List Byte × LuaValue) : Except JsonError (List Byte) := do
  return quotationMark :: encodeString p.1 ++ asciiBytes "\":" ++ (← encode js p.2)

theorem encode_object (h : isArray js es = none) :
    encode js (.table es) = (objectEntries js es).mapM (entryText js) >>=
      fun rval => pure (asciiBytes "\x7b" ++ concat rval ++ asciiBytes "\x7d") := by
  rw [encode, h]
  exact congrArg (· >>= _) (mapM_attach _ (entryText js))

theorem reread_array {maxCount : WithTop ℕ} (h : isArray js es = some maxCount) :
    reread js (.table es) = ((List.range' 1 (maxCount.untopD 0)).map fun i => tableGet es (indexKey i)).mapM (reread js) >>=
      fun vs => pure (.table (fillArray 1 [] vs)) := by
  rw [reread, h, List.mapM_map]
  rfl

/-- What an entry of an object becomes. -/
def rereadEntry (js : JsonRuntime) (p : List Byte × LuaValue) : Except JsonError (List Byte × LuaValue) := do
  return (p.1, ← reread js p.2)

theorem reread_object (h : isArray js es = none) :
    reread js (.table es) = (objectEntries js es).mapM (rereadEntry js) >>= fun vs => pure (.table (fillObject [] vs)) := by
  rw [reread, h]
  exact congrArg (· >>= _) (mapM_attach _ (rereadEntry js))

/-! ### The beginning and the end of a text -/

/-- A byte that begins a value. -/
def Opens (b : Byte) : Prop := b ∉ whitespace ∧ b ∉ asciiBytes "],:\x7d"

instance (b : Byte) : Decidable (Opens b) := by unfold Opens; infer_instance

/-- What may follow a number. -/
def Stops (s : List Byte) : Prop := ∀ b ∈ s.head?, b ∉ acceptableChars

theorem scanWhitespace_cons {b : Byte} (h : b ∉ whitespace) (s : List Byte) : scanWhitespace (b :: s) = b :: s := by
  rw [scanWhitespace, List.dropWhile_cons_of_neg (by simpa using h)]

theorem opens_of_acceptable : ∀ b ∈ acceptableChars, Opens b := forall_mem_of_all (by decide)

/-- The text of a number begins with a byte that opens a value. -/
theorem exists_opens_numberText (x : Double) : ∃ b t, js.numberText x = b :: t ∧ Opens b := by
  by_cases hx : ∃ q, x.value = .finite q
  · obtain ⟨q, hq⟩ := hx
    obtain ⟨hne, hchars⟩ := js.finite_text x q hq
    obtain ⟨b, t, hbt⟩ := List.exists_cons_of_ne_nil hne
    exact ⟨b, t, hbt, opens_of_acceptable b (hchars b (hbt ▸ List.mem_cons_self))⟩
  · have htext := js.infinite_text x (not_exists.1 hx)
    simp only [List.mem_cons, List.not_mem_nil, or_false] at htext
    rcases htext with h | h | h | h <;> rw [h] <;> exact ⟨_, _, rfl, by decide⟩

/-- Every text begins with a byte that opens a value. -/
theorem exists_opens_of_encode {text : List Byte} (h : encode js v = .ok text) : ∃ b t, text = b :: t ∧ Opens b := by
  cases v with
  | nil =>
    rw [encode] at h
    obtain rfl := Except.ok.inj h
    exact ⟨_, _, rfl, by decide⟩
  | boolean b =>
    rw [encode] at h
    obtain rfl := Except.ok.inj h
    cases b <;> exact ⟨_, _, rfl, by decide⟩
  | number x =>
    rw [encode] at h
    obtain rfl := Except.ok.inj h
    exact exists_opens_numberText x
  | string s =>
    rw [encode] at h
    obtain rfl := Except.ok.inj h
    exact ⟨_, _, rfl, by decide⟩
  | table es =>
    cases hes : isArray js es with
    | some maxCount =>
      by_cases hmax : lastIndex < maxCount
      · rw [encode, hes] at h
        simp [hmax] at h
      · rw [encode_array hes hmax] at h
        obtain ⟨rval, -, h⟩ := bind_eq_ok.1 h
        obtain rfl := Except.ok.inj h
        exact ⟨_, _, rfl, by decide⟩
    | none =>
      rw [encode_object hes] at h
      obtain ⟨rval, -, h⟩ := bind_eq_ok.1 h
      obtain rfl := Except.ok.inj h
      exact ⟨_, _, rfl, by decide⟩
  | function id =>
    rw [encode] at h
    split_ifs at h
    obtain rfl := Except.ok.inj h
    exact ⟨_, _, rfl, by decide⟩
  | object id =>
    rw [encode] at h
    cases h

/-! ### One value -/

theorem takeWhile_acceptable {text : List Byte} (htext : ∀ b ∈ text, b ∈ acceptableChars) (hrest : Stops rest) :
    (text ++ rest).takeWhile (· ∈ acceptableChars) = text ∧ (text ++ rest).dropWhile (· ∈ acceptableChars) = rest := by
  have hall : ∀ b ∈ text, decide (b ∈ acceptableChars) = true := fun b hb => decide_eq_true (htext b hb)
  rw [List.takeWhile_append_of_pos hall, List.dropWhile_append_of_pos hall]
  cases rest with
  | nil => simp
  | cons b rest =>
    have hb : b ∉ acceptableChars := hrest b rfl
    simp [hb]

/-- A sign that no digit follows is no number. -/
theorem scanNumber_minus {b : Byte} (hb : b ∉ acceptableChars) (s : List Byte) : scanNumber js (45 :: b :: s) = .error .number := by
  have htake : (b :: s).takeWhile (· ∈ acceptableChars) = [] := List.takeWhile_cons_of_neg (by simpa using hb)
  have hload : js.load [45] = none := js.load_minus
  rw [scanNumber, htake, hload]

/-- Infinities and NaN are not read. -/
theorem decode_infinite {x : Double} (hx : ∀ q, x.value ≠ .finite q) (rest : List Byte) :
    decode js (js.numberText x ++ rest) = .error (if asciiBytes "-" <+: js.numberText x then .number else .constant) := by
  have htext := js.infinite_text x hx
  simp only [List.mem_cons, List.not_mem_nil, or_false] at htext
  rcases htext with h | h | h | h <;> rw [h]
  · exact (decode_of_cons (b := 105) (r := asciiBytes "nf" ++ rest) rfl).trans (by simp [scanConstant, asciiBytes, acceptableChars, quotationMark, apostrophe])
  · exact (decode_of_cons (b := 45) (r := asciiBytes "inf" ++ rest) rfl).trans (scanNumber_minus (by decide) _)
  · exact (decode_of_cons (b := 110) (r := asciiBytes "an" ++ rest) rfl).trans (by simp [scanConstant, asciiBytes, acceptableChars, quotationMark, apostrophe])
  · exact (decode_of_cons (b := 45) (r := asciiBytes "nan" ++ rest) rfl).trans (scanNumber_minus (by decide) _)

/-- A number that has been written is read as far as it goes. -/
theorem decode_numberText (x : Double) (hrest : Stops rest) :
    decode js (js.numberText x ++ rest) = (rereadNumber js x).map fun w => (w, rest) := by
  rw [rereadNumber]
  cases hx : x.value with
  | finite q =>
    obtain ⟨b, t, hbt, hopen⟩ : ∃ b t, js.numberText x = b :: t ∧ Opens b := exists_opens_numberText x
    have hwhite : scanWhitespace (js.numberText x ++ rest) = b :: (t ++ rest) := by
      rw [hbt]
      exact scanWhitespace_cons hopen.1 _
    obtain ⟨-, hchars⟩ := js.finite_text x q hx
    rw [hbt] at hchars
    have hb : b ∈ acceptableChars := hchars b List.mem_cons_self
    have hbrace : b ≠ 123 ∧ b ≠ 91 := ⟨fun h => absurd hb (h ▸ by decide), fun h => absurd hb (h ▸ by decide)⟩
    obtain ⟨htake, hdrop⟩ := takeWhile_acceptable (fun c hc => hchars c (List.mem_cons_of_mem b hc)) hrest
    rw [decode_of_cons hwhite, if_neg hbrace.1, if_neg hbrace.2, if_pos hb, scanNumber, htake, hdrop, ← hbt]
    cases js.load (js.numberText x) <;> rfl
  | inf negative => exact decode_infinite (by simp [hx]) rest
  | nan => exact decode_infinite (by simp [hx]) rest

/-! ### Arrays and objects -/

/-- The texts with a comma in front of each. -/
def listed (texts : List (List Byte)) : List Byte := (texts.map fun t => asciiBytes "," ++ t).flatten

theorem concat_cons (text : List Byte) (texts : List (List Byte)) : concat (text :: texts) = text ++ listed texts := by
  induction texts generalizing text with
  | nil => simp [concat, listed]
  | cons text' texts ih => 
    have hsep : concat (text :: text' :: texts) = text ++ (asciiBytes "," ++ concat (text' :: texts)) := by
      simp [concat, List.intersperse]
    rw [hsep, ih]
    simp [listed]

/-- Scanning stops at a byte that opens a value. -/
theorem skipComma_opens {b : Byte} (hb : Opens b) (s : List Byte) : skipComma (b :: s) = b :: s := by
  refine if_neg fun h => hb.2 ?_
  have heq : 44 = b := (List.cons_prefix_cons.1 h).1
  rw [← heq]
  decide

/-- Between two elements, or in front of the first one. -/
theorem scanArray_value {b : Byte} (hb : Opens b) (index : ℕ) (array : LuaEntries) (s : List Byte) :
    scanArray js index array (b :: s) =
      decode js (b :: s) >>= fun p => scanArray js (index + 1) (tableSet array (indexKey index) p.1) p.2 := by
  have hend : ¬ asciiBytes "]" <+: b :: s := by
    intro h
    have heq : 93 = b := (List.cons_prefix_cons.1 h).1
    exact hb.2 (heq ▸ by decide)
  rw [scanArray_eq, scanWhitespace_cons hb.1]
  dsimp only
  rw [if_neg hend, skipComma_opens hb]
  rfl

theorem scanArray_comma {b : Byte} (hb : Opens b) (index : ℕ) (array : LuaEntries) (s : List Byte) :
    scanArray js index array (44 :: b :: s) = scanArray js index array (b :: s) := by
  have hcomma : skipComma (44 :: b :: s) = b :: s := scanWhitespace_cons hb.1 s
  have hend : ¬ asciiBytes "]" <+: 44 :: b :: s := by
    intro h
    exact absurd (List.cons_prefix_cons.1 h).1 (by decide)
  rw [scanArray_value hb, scanArray_eq, scanWhitespace_cons (by decide)]
  dsimp only
  rw [if_neg hend, hcomma]
  rfl

theorem scanArray_end (index : ℕ) (array : LuaEntries) (rest : List Byte) :
    scanArray js index array (93 :: rest) = .ok (.table array, rest) := by
  have hend : asciiBytes "]" <+: 93 :: rest := List.prefix_append [93] rest
  rw [scanArray_eq, scanWhitespace_cons (by decide), if_pos hend]
  rfl

/-- The value is read from its text, whatever stops it. -/
def Reads (js : JsonRuntime) (v : LuaValue) : Prop := ∀ text rest, encode js v = .ok text → Stops rest →
  decode js (text ++ rest) = (reread js v).map fun w => (w, rest)

theorem stops_listed (texts : List (List Byte)) (b : Byte) (hb : b ∉ acceptableChars) (rest : List Byte) :
    Stops (listed texts ++ b :: rest) := by
  intro c hc
  cases texts with
  | nil =>
    obtain rfl := Option.some.inj hc
    exact hb
  | cons text texts =>
    obtain rfl := Option.some.inj hc
    decide

/-- The elements that are left, and the end of the array. -/
theorem scanArray_listed {vs : List LuaValue} (hvs : ∀ v ∈ vs, Reads js v) {texts : List (List Byte)}
    (htexts : vs.mapM (encode js) = .ok texts) (index : ℕ) (array : LuaEntries) (rest : List Byte) :
    scanArray js index array (listed texts ++ 93 :: rest) =
      (vs.mapM (reread js)).map fun ws => (.table (fillArray index array ws), rest) := by
  induction vs generalizing texts index array with
  | nil =>
    obtain rfl := Except.ok.inj htexts
    exact scanArray_end index array rest
  | cons v vs ih =>
    rw [List.mapM_cons] at htexts
    obtain ⟨text, htext, htexts⟩ := bind_eq_ok.1 htexts
    obtain ⟨texts, hmore, htexts⟩ := bind_eq_ok.1 htexts
    obtain rfl := Except.ok.inj htexts
    obtain ⟨b, t, rfl, hb⟩ := exists_opens_of_encode htext
    have hlisted : listed ((b :: t) :: texts) ++ 93 :: rest = 44 :: b :: (t ++ (listed texts ++ 93 :: rest)) := by
      simp [listed, asciiBytes]
    have hread := hvs v List.mem_cons_self (b :: t) (listed texts ++ 93 :: rest) htext (stops_listed texts 93 (by decide) rest)
    rw [hlisted, scanArray_comma hb, scanArray_value hb, ← List.cons_append, hread, List.mapM_cons]
    cases reread js v with
    | error e => rfl
    | ok w =>
      refine (ih (fun v hv => hvs v (List.mem_cons_of_mem _ hv)) hmore (index + 1) _).trans ?_
      cases vs.mapM (reread js) <;> rfl

/-- A string is read from its text. -/
theorem decode_string (s rest : List Byte) :
    decode js (quotationMark :: encodeString s ++ [quotationMark] ++ rest) = .ok (.string s, rest) := by
  have hwhite : scanWhitespace (quotationMark :: encodeString s ++ [quotationMark] ++ rest) =
      quotationMark :: (encodeString s ++ quotationMark :: rest) := by
    rw [List.cons_append, List.cons_append, List.append_assoc]
    exact scanWhitespace_cons (by decide) _
  rw [decode_of_cons hwhite, if_neg (by decide), if_neg (by decide), if_neg (by decide), if_pos (.inl rfl)]
  exact scanString_encodeString s rest

theorem scanColon_opens {b : Byte} (hb : Opens b) (key s : List Byte) : scanColon (.string key) (58 :: b :: s) = .ok (b :: s) := by
  have hwhite : scanWhitespace (58 :: b :: s) = 58 :: b :: s := scanWhitespace_cons (by decide) _
  have hcolon : asciiBytes ":" <+: 58 :: b :: s := List.prefix_append [58] _
  have hvalue : scanWhitespace ((58 :: b :: s).drop 1) = b :: s := scanWhitespace_cons hb.1 s
  have htext : isText (.string key) = true := rfl
  rw [scanColon, hwhite]
  dsimp only
  rw [hvalue, ensure_pos htext, ensure_pos (List.cons_ne_nil 58 _), ensure_pos hcolon, ensure_pos (List.cons_ne_nil b s)]
  rfl

/-- Between two entries, or in front of the first one. -/
theorem scanObject_key {b : Byte} (hb : Opens b) (object : LuaEntries) (s : List Byte) :
    scanObject js object (b :: s) = decode js (b :: s) >>= fun key => scanColon key.1 key.2 >>= fun r =>
      decode js r >>= fun value => assignKey object key.1 value.1 >>= fun object => scanObject js object value.2 := by
  have hend : ¬ asciiBytes "\x7d" <+: b :: s := by
    intro h
    have heq : 125 = b := (List.cons_prefix_cons.1 h).1
    exact hb.2 (heq ▸ by decide)
  rw [scanObject_eq, scanWhitespace_cons hb.1]
  dsimp only
  rw [if_neg hend, skipComma_opens hb]
  rfl

theorem scanObject_comma {b : Byte} (hb : Opens b) (object : LuaEntries) (s : List Byte) :
    scanObject js object (44 :: b :: s) = scanObject js object (b :: s) := by
  have hcomma : skipComma (44 :: b :: s) = b :: s := scanWhitespace_cons hb.1 s
  have hend : ¬ asciiBytes "\x7d" <+: 44 :: b :: s := by
    intro h
    exact absurd (List.cons_prefix_cons.1 h).1 (by decide)
  rw [scanObject_key hb, scanObject_eq, scanWhitespace_cons (by decide)]
  dsimp only
  rw [if_neg hend, hcomma]
  rfl

theorem scanObject_end (object : LuaEntries) (rest : List Byte) :
    scanObject js object (125 :: rest) = .ok (.table object, rest) := by
  have hend : asciiBytes "\x7d" <+: 125 :: rest := List.prefix_append [125] rest
  rw [scanObject_eq, scanWhitespace_cons (by decide), if_pos hend]
  rfl

/-- An entry that has been written is read. -/
theorem scanObject_entry {p : List Byte × LuaValue} (hp : Reads js p.2) {text : List Byte} (htext : entryText js p = .ok text)
    (object : LuaEntries) (hrest : Stops rest) :
    scanObject js object (text ++ rest) = reread js p.2 >>= fun w => scanObject js (tableSet object (.string p.1) w) rest := by
  obtain ⟨value, hvalue, h⟩ := bind_eq_ok.1 htext
  obtain rfl := Except.ok.inj h
  obtain ⟨b, t, rfl, hb⟩ := exists_opens_of_encode hvalue
  have hsplit : quotationMark :: encodeString p.1 ++ asciiBytes "\":" ++ (b :: t) ++ rest =
      quotationMark :: encodeString p.1 ++ [quotationMark] ++ 58 :: b :: (t ++ rest) := by
    simp [asciiBytes, quotationMark]
  have hkey : Opens quotationMark := by decide
  have hread := hp (b :: t) rest hvalue hrest
  have hentry : scanObject js object (quotationMark :: encodeString p.1 ++ [quotationMark] ++ 58 :: b :: (t ++ rest)) =
      decode js (quotationMark :: encodeString p.1 ++ [quotationMark] ++ 58 :: b :: (t ++ rest)) >>= fun key =>
        scanColon key.1 key.2 >>= fun r => decode js r >>= fun value =>
          assignKey object key.1 value.1 >>= fun object => scanObject js object value.2 := scanObject_key hkey object _
  rw [hsplit, hentry, decode_string]
  show (scanColon (.string p.1) (58 :: b :: (t ++ rest)) >>= _) = _
  rw [scanColon_opens hb]
  show (decode js (b :: t ++ rest) >>= _) = _
  rw [hread]
  cases reread js p.2 <;> rfl

/-- The entries that are left, and the end of the object. -/
theorem scanObject_listed {ps : List (List Byte × LuaValue)} (hps : ∀ p ∈ ps, Reads js p.2) {texts : List (List Byte)}
    (htexts : ps.mapM (entryText js) = .ok texts) (object : LuaEntries) (rest : List Byte) :
    scanObject js object (listed texts ++ 125 :: rest) =
      (ps.mapM (rereadEntry js)).map fun ws => (.table (fillObject object ws), rest) := by
  induction ps generalizing texts object with
  | nil =>
    obtain rfl := Except.ok.inj htexts
    exact scanObject_end object rest
  | cons p ps ih =>
    rw [List.mapM_cons] at htexts
    obtain ⟨text, htext, htexts⟩ := bind_eq_ok.1 htexts
    obtain ⟨texts, hmore, htexts⟩ := bind_eq_ok.1 htexts
    obtain rfl := Except.ok.inj htexts
    have hlisted : listed (text :: texts) ++ 125 :: rest = 44 :: (text ++ (listed texts ++ 125 :: rest)) := by
      simp [listed, asciiBytes]
    have hcomma : scanObject js object (44 :: (text ++ (listed texts ++ 125 :: rest))) =
        scanObject js object (text ++ (listed texts ++ 125 :: rest)) := by
      obtain ⟨value, -, h⟩ := bind_eq_ok.1 htext
      obtain rfl := Except.ok.inj h
      exact scanObject_comma (b := quotationMark) (by decide) object _
    rw [hlisted, hcomma, scanObject_entry (hps p List.mem_cons_self) htext object (stops_listed texts 125 (by decide) rest),
      List.mapM_cons, rereadEntry]
    cases reread js p.2 with
    | error e => rfl
    | ok w =>
      refine (ih (fun p hp => hps p (List.mem_cons_of_mem _ hp)) hmore _).trans ?_
      cases ps.mapM (rereadEntry js) <;> rfl

/-! ### Every value -/

/-- The first text has no comma in front of it. -/
theorem scanArray_concat {vs : List LuaValue} (hvs : ∀ v ∈ vs, Reads js v) {texts : List (List Byte)}
    (htexts : vs.mapM (encode js) = .ok texts) (rest : List Byte) : scanArray js 1 [] (concat texts ++ 93 :: rest) =
      (vs.mapM (reread js)).map fun ws => (.table (fillArray 1 [] ws), rest) := by
  rw [← scanArray_listed hvs htexts]
  cases texts with
  | nil => rfl
  | cons text texts =>
    obtain ⟨v, -, htext⟩ : ∃ v ∈ vs, encode js v = .ok text := by
      cases vs with
      | nil => cases htexts
      | cons v vs =>
        rw [List.mapM_cons] at htexts
        obtain ⟨text', htext, htexts⟩ := bind_eq_ok.1 htexts
        obtain ⟨texts', -, htexts⟩ := bind_eq_ok.1 htexts
        obtain ⟨rfl, -⟩ := List.cons.inj (Except.ok.inj htexts)
        exact ⟨v, List.mem_cons_self, htext⟩
    obtain ⟨b, t, rfl, hb⟩ := exists_opens_of_encode htext
    have hlisted : listed ((b :: t) :: texts) ++ 93 :: rest = 44 :: b :: (t ++ (listed texts ++ 93 :: rest)) := by
      simp [listed, asciiBytes]
    rw [hlisted, scanArray_comma hb, concat_cons, List.append_assoc]
    rfl

theorem scanObject_concat {ps : List (List Byte × LuaValue)} (hps : ∀ p ∈ ps, Reads js p.2) {texts : List (List Byte)}
    (htexts : ps.mapM (entryText js) = .ok texts) (rest : List Byte) : scanObject js [] (concat texts ++ 125 :: rest) =
      (ps.mapM (rereadEntry js)).map fun ws => (.table (fillObject [] ws), rest) := by
  rw [← scanObject_listed hps htexts]
  cases texts with
  | nil => rfl
  | cons text texts =>
    obtain ⟨t, rfl⟩ : ∃ t, text = quotationMark :: t := by
      cases ps with
      | nil => cases htexts
      | cons p ps =>
        rw [List.mapM_cons] at htexts
        obtain ⟨text', htext, htexts⟩ := bind_eq_ok.1 htexts
        obtain ⟨texts', -, htexts⟩ := bind_eq_ok.1 htexts
        obtain ⟨rfl, -⟩ := List.cons.inj (Except.ok.inj htexts)
        obtain ⟨value, -, h⟩ := bind_eq_ok.1 htext
        obtain rfl := Except.ok.inj h
        exact ⟨_, rfl⟩
    have hlisted : listed ((quotationMark :: t) :: texts) ++ 125 :: rest = 44 :: quotationMark :: (t ++ (listed texts ++ 125 :: rest)) := by
      simp [listed, asciiBytes]
    rw [hlisted, scanObject_comma (by decide), concat_cons, List.append_assoc]
    rfl

/-- A text that begins with a letter is a constant. -/
theorem decode_letter {b : Byte} (hb : b ∈ asciiBytes "nft") (s : List Byte) : decode js (b :: s) = scanConstant (b :: s) := by
  have hplain : ∀ b ∈ asciiBytes "nft", b ∉ whitespace ∧ b ≠ 123 ∧ b ≠ 91 ∧ b ∉ acceptableChars ∧
      ¬ (b = quotationMark ∨ b = apostrophe) ∧ 47 ≠ b := forall_mem_of_all (by decide)
  obtain ⟨hwhite, hbrace, hbracket, hnumber, hquote, hslash⟩ := hplain b hb
  have hcomment : ¬ asciiBytes "/*" <+: b :: s := fun h => hslash (List.cons_prefix_cons.1 h).1
  rw [decode_of_cons (scanWhitespace_cons hwhite s), if_neg hbrace, if_neg hbracket, if_neg hnumber, if_neg hquote, if_neg hcomment]

theorem decode_null (rest : List Byte) : decode js (asciiBytes "null" ++ rest) = .ok (.nil, rest) :=
  (decode_letter (b := 110) (by decide) (asciiBytes "ull" ++ rest)).trans (by simp [scanConstant, asciiBytes])

theorem decode_boolean (b : Bool) (rest : List Byte) : decode js (booleanText b ++ rest) = .ok (.boolean b, rest) := by
  cases b with
  | false => exact (decode_letter (b := 102) (by decide) (asciiBytes "alse" ++ rest)).trans (by simp [scanConstant, asciiBytes])
  | true => exact (decode_letter (b := 116) (by decide) (asciiBytes "rue" ++ rest)).trans (by simp [scanConstant, asciiBytes])

theorem decode_bracket (s : List Byte) : decode js (91 :: s) = scanArray js 1 [] s := by
  rw [decode_of_cons (scanWhitespace_cons (by decide) s), if_neg (by decide), if_pos rfl]

theorem decode_brace (s : List Byte) : decode js (123 :: s) = scanObject js [] s := by
  rw [decode_of_cons (scanWhitespace_cons (by decide) s), if_pos rfl]

/-- A table is read from its text if all values in it are. -/
theorem reads_table (harray : ∀ k, Reads js (tableGet es k)) (hobject : ∀ p ∈ objectEntries js es, Reads js p.2) :
    Reads js (.table es) := by
  intro text rest htext hrest
  cases hes : isArray js es with
  | some maxCount =>
    by_cases hmax : lastIndex < maxCount
    · rw [encode, hes] at htext
      simp [hmax] at htext
    · rw [encode_array hes hmax] at htext
      obtain ⟨texts, htexts, h⟩ := bind_eq_ok.1 htext
      obtain rfl := Except.ok.inj h
      have hsplit : asciiBytes "[" ++ concat texts ++ asciiBytes "]" ++ rest = 91 :: (concat texts ++ 93 :: rest) := by
        simp [asciiBytes]
      have hvs : ∀ v ∈ (List.range' 1 (maxCount.untopD 0)).map fun i => tableGet es (indexKey i), Reads js v := by
        rw [List.forall_mem_map]
        exact fun i _ => harray (indexKey i)
      rw [hsplit, decode_bracket, scanArray_concat hvs htexts, reread_array hes]
      cases ((List.range' 1 (maxCount.untopD 0)).map fun i => tableGet es (indexKey i)).mapM (reread js) <;> rfl
  | none =>
    rw [encode_object hes] at htext
    obtain ⟨texts, htexts, h⟩ := bind_eq_ok.1 htext
    obtain rfl := Except.ok.inj h
    have hsplit : asciiBytes "\x7b" ++ concat texts ++ asciiBytes "\x7d" ++ rest = 123 :: (concat texts ++ 125 :: rest) := by
      simp [asciiBytes]
    rw [hsplit, decode_brace, scanObject_concat hobject htexts, reread_object hes]
    cases (objectEntries js es).mapM (rereadEntry js) <;> rfl

/-- What `json.decode` reads of a text that `json.encode` has written, by induction on the value. -/
theorem reads (v : LuaValue) : Reads js v := by
  induction hsize : sizeOf v using Nat.strong_induction_on generalizing v with
  | _ n ih =>
    subst hsize
    cases v with
    | table es =>
      exact reads_table (fun k => ih _ (sizeOf_tableGet_lt es k) _ rfl)
        fun p hp => ih _ (sizeOf_objectEntries_lt js hp) _ rfl
    | nil =>
      intro text rest htext hrest
      rw [encode] at htext
      obtain rfl := Except.ok.inj htext
      rw [decode_null, reread]
      rfl
    | boolean b =>
      intro text rest htext hrest
      rw [encode] at htext
      obtain rfl := Except.ok.inj htext
      rw [decode_boolean, reread]
      rfl
    | number x =>
      intro text rest htext hrest
      rw [encode] at htext
      obtain rfl := Except.ok.inj htext
      rw [decode_numberText x hrest, reread]
    | string s =>
      intro text rest htext hrest
      rw [encode] at htext
      obtain rfl := Except.ok.inj htext
      rw [decode_string, reread]
      rfl
    | function id =>
      intro text rest htext hrest
      rw [encode] at htext
      split_ifs at htext
      obtain rfl := Except.ok.inj htext
      rw [decode_null, reread]
      rfl
    | object id =>
      intro text rest htext hrest
      rw [encode] at htext
      cases htext

/-- **What is decoded of an encoded value**: it is `reread`, and nothing of the text is left. -/
theorem decode_encode (v : LuaValue) :
    encode js v >>= decode js = encode js v >>= fun _ => (reread js v).map fun w => (w, []) := by
  refine bind_congr_ok fun text htext => ?_
  have hread := reads v text [] htext (by simp [Stops])
  rw [List.append_nil] at hread
  exact hread

end Slam.Json
