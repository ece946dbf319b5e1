import Slam.Db.Encode
import Slam.Lib.SqlText

/-!
# `slam_lua_db.c`: what MySQL reads of a record

What follows the text of a record in a statement is nothing or a condition, and the statement is cut at its first
NUL. In between MySQL should read the assignments of the record. It does for null, for numbers whose text denotes
them and for strings that a quoted string can hold as they are; but a boolean is not written at all, a string that
looks like a number is written without quotes, and quotes, backslashes and NULs are written as they are.

* `SetsRecord`: MySQL reads the assignments of the record, and then what follows it;
* `ReadsBack`: the values that are read as what they are, `literal_of_readsBack` and `readsBack_of_literal`;
* `set_clause_iff`: a record is read as what it is exactly if all its values are.
-/

namespace Slam.Db

open SqlText

/-- The words that are no names unless they are quoted. The list is that of the server. -/
structure ReservedWords where
  isReserved : List Byte → Bool
  isReserved_where : isReserved (asciiBytes "where") = true

/-- The texts that numbers convert to and from: those of `%.14g` are made of digits, letters, signs and points, and
what converts to a number has no quotes. -/
structure NumberTexts (rt : LuaRuntime) : Prop where
  bytes : ∀ x, ∀ b ∈ rt.numberText x, isNumberByte b
  unquoted : ∀ s x, rt.textNumber s = some x → quote ∉ s ∧ doubleQuote ∉ s

/-- A literal stands for a value. A number is read as the double nearest to it. -/
def Denotes : Literal → LuaValue → Prop
  | .null, .nil => True
  | .boolean b, .boolean b' => b = b'
  | .number q, .number x => (∃ r, x.value = .finite r) ∧ BinaryFloat.ofRat q = x
  | .string s, .string t => s = t
  | _, _ => False

/-- The assignments are those of the entries. -/
def Assigns (as : List (List Byte × Literal)) (es : LuaEntries) : Prop :=
  List.Forall₂ (fun a e => e.1 = .string a.1 ∧ Denotes a.2 e.2) as es

/-- In a statement with or without a condition, MySQL reads the record from its text, and then the condition. -/
def SetsRecord (rt : LuaRuntime) (words : ReservedWords) (es : LuaEntries) (text : List Byte)
    (condition : Option (List Byte)) : Prop :=
  ∃ as, setClause words.isReserved (cstring (text ++ whereText condition)) =
    some (as, cstring (whereText condition)) ∧ Assigns as (rt.next es)

/-- The values that are read as what they are. -/
def ReadsBack (rt : LuaRuntime) : LuaValue → Prop
  | .nil => True
  | .number x =>
    (∃ r, x.value = .finite r) ∧ ∃ q, number (rt.numberText x) = some (q, []) ∧ BinaryFloat.ofRat q = x
  | .string s => rt.textNumber s = none ∧ Plain s ∧ 0 ∉ s
  | _ => False

/-- A key that is a name. -/
def NameKey (key : LuaKey) : Prop := ∃ name, key = .string name ∧ IsName name

/-- A key that is not reserved. -/
def FreeKey (words : ReservedWords) (key : LuaKey) : Prop :=
  ∀ name, key = .string name → words.isReserved name = false

/-! ### What follows a value -/

/-- What follows a value: nothing, the next entry or the condition. -/
def Follows (rest : List Byte) : Prop :=
  rest = [] ∨ (∃ more, rest = comma :: more) ∨ ∃ condition, rest = asciiBytes " where " ++ condition

variable {rest : List Byte}

theorem Follows.separates (h : Follows rest) : Separates rest := by
  rintro b hb
  rcases h with rfl | ⟨more, rfl⟩ | ⟨condition, rfl⟩
  · cases hb
  · exact .inl (Option.some.inj hb).symm
  · exact .inr (Option.some.inj hb).symm

theorem Follows.literal (h : Follows rest) : literal rest = none := by
  rcases h with rfl | ⟨more, rfl⟩ | ⟨condition, rfl⟩ <;> rfl

theorem Follows.skipSpace (h : Follows rest) {c : Byte} {input : List Byte} (hskip : skipSpace rest = c :: input) :
    c ≠ quote ∧ c ≠ doubleQuote := by
  rcases h with rfl | ⟨more, rfl⟩ | ⟨condition, rfl⟩
  · cases hskip
  · obtain ⟨rfl, -⟩ := List.cons.inj hskip
    decide
  · obtain ⟨rfl, -⟩ := List.cons.inj hskip
    decide

/-! ### One value -/

variable {rt : LuaRuntime} {v : LuaValue} {text : List Byte}

theorem NumberTexts.not_mem_zero (hrt : NumberTexts rt) (x : Double) : 0 ∉ rt.numberText x := fun h =>
  (isNumberByte_spec (hrt.bytes x 0 h)).2.2.2.2 rfl

theorem notMem_quoted {s : List Byte} (hzero : 0 ∉ s) : 0 ∉ quote :: (s ++ [quote]) := by
  have hne : (0 : Byte) ≠ quote := by decide
  simpa [hne] using hzero

/-- The text of a string that converts to no number. -/
theorem encodeValue_string {s : List Byte} (hs : rt.textNumber s = none) :
    encodeValue rt (.string s) = some (quote :: (s ++ [quote])) := by
  simp only [encodeValue, LuaValue.isNil, isboolean, isnumber, isstring, hs, tolstring, LuaRuntime.tostring]
  rfl

/-- The text of a string that converts to a number. -/
theorem encodeValue_numeric {s : List Byte} {x : Double} (hs : rt.textNumber s = some x) :
    encodeValue rt (.string s) = some s := by
  simp only [encodeValue, LuaValue.isNil, isboolean, isnumber, hs, tolstring, LuaRuntime.tostring]
  rfl

/-- **A value that reads back** is written as a literal that denotes it. -/
theorem literal_of_readsBack (hrt : NumberTexts rt) (hv : ReadsBack rt v) (htext : encodeValue rt v = some text)
    (hrest : Follows rest) : 0 ∉ text ∧ ∃ l, literal (text ++ rest) = some (l, rest) ∧ Denotes l v := by
  cases v with
  | nil =>
    obtain rfl := Option.some.inj htext
    exact ⟨by decide, .null, literal_null hrest.separates, trivial⟩
  | number x =>
    obtain ⟨hfinite, q, hnumber, hx⟩ := hv
    obtain rfl : rt.numberText x = text := Option.some.inj htext
    have hne : rt.numberText x ≠ [] := by
      intro hnil
      rw [hnil] at hnumber
      cases hnumber
    exact ⟨hrt.not_mem_zero x, .number q, (literal_number_iff hne (hrt.bytes x) hrest.separates).2
      ⟨[], hnumber, rfl⟩, hfinite, hx⟩
  | string s =>
    obtain ⟨htextual, hplain, hzero⟩ := hv
    rw [encodeValue_string htextual] at htext
    obtain rfl := Option.some.inj htext
    refine ⟨notMem_quoted hzero, .string s, ?_, rfl⟩
    rw [List.cons_append, List.append_assoc, literal_quote]
    simp [quoted_plain hplain hrest.separates.noSpecial]
  | _ => cases hv

/-- A text without quotes is no string, whatever follows it. -/
theorem literal_ne_string {s t : List Byte} (hquote : quote ∉ s) (hdouble : doubleQuote ∉ s)
    (hrest : Follows (cstring t)) {w r : List Byte} : literal (cstring (s ++ t)) ≠ some (.string w, r) := by
  intro h
  obtain ⟨c, input, hskip, hc⟩ := head_of_literal_string h
  have hnot : c ∉ s := by rcases hc with rfl | rfl <;> assumption
  by_cases hzero : 0 ∈ s
  · rw [(cstring_append_of_mem hzero t).1] at hskip
    have hmem : c ∈ cstring s := (List.dropWhile_suffix _).subset (hskip ▸ List.mem_cons_self)
    exact hnot ((List.takeWhile_prefix _).subset hmem)
  · rw [cstring_append hzero] at hskip
    unfold SqlText.skipSpace at hskip
    rw [List.dropWhile_append] at hskip
    split_ifs at hskip with hempty
    · obtain ⟨hquote', hdouble'⟩ := hrest.skipSpace hskip
      exact hc.elim hquote' hdouble'
    · cases hdrop : s.dropWhile isSpace with
      | nil => simp [hdrop] at hempty
      | cons d s' =>
        rw [hdrop, List.cons_append] at hskip
        obtain ⟨rfl, -⟩ := List.cons.inj hskip
        exact hnot ((List.dropWhile_suffix _).subset (hdrop ▸ List.mem_cons_self))

/-- A string between quotes is read as what it is only if a quoted string can hold it, and the statement does not end
in it. -/
theorem plain_of_literal {w t r : List Byte} (hrest : Follows (cstring t))
    (h : literal (cstring (quote :: (w ++ [quote]) ++ t)) = some (.string w, r)) :
    r = cstring t ∧ Plain w ∧ 0 ∉ w := by
  rw [List.cons_append, List.append_assoc] at h
  by_cases hzero : 0 ∈ w
  · obtain ⟨hcut, hlength⟩ := cstring_append_of_mem hzero ([quote] ++ t)
    have hquote : cstring (quote :: (w ++ ([quote] ++ t))) = quote :: cstring w := by rw [← hcut]; rfl
    rw [hquote, literal_quote] at h
    obtain ⟨w', hquoted, heq⟩ := exists_of_map h
    obtain rfl := Literal.string.inj heq
    -- what is read of a string is no longer than what is left of it
    have hshort := length_quoted hquoted
    omega
  · have hquote : cstring (quote :: (w ++ ([quote] ++ t))) = quote :: (w ++ quote :: cstring t) := by
      have happend := cstring_append (notMem_quoted hzero) t
      simpa using happend
    rw [hquote, literal_quote] at h
    obtain ⟨w', hquoted, heq⟩ := exists_of_map h
    obtain rfl := Literal.string.inj heq
    have hplain := plain_of_quoted hrest.separates.noSpecial hquoted
    rw [quoted_plain hplain hrest.separates.noSpecial] at hquoted
    obtain ⟨-, rfl⟩ := Prod.mk.inj (Option.some.inj hquoted)
    exact ⟨rfl, hplain, hzero⟩

/-- **A literal that denotes a value** is the text of one that reads back, but for what may be left of a number. -/
theorem readsBack_of_literal (hrt : NumberTexts rt) (htext : encodeValue rt v = some text) {t : List Byte}
    (hrest : Follows (cstring t)) {l : Literal} {r : List Byte} (hl : literal (cstring (text ++ t)) = some (l, r))
    (hd : Denotes l v) :
    ∃ r', r = r' ++ cstring t ∧ (∀ b ∈ r', isNumberByte b) ∧ (r' = [] → ReadsBack rt v) := by
  cases v with
  | nil =>
    obtain rfl := Option.some.inj htext
    rw [cstring_append (by decide)] at hl
    have hnull := (literal_null hrest.separates).symm.trans hl
    obtain ⟨-, rfl⟩ := Prod.mk.inj (Option.some.inj hnull)
    exact ⟨[], rfl, by simp, fun _ => trivial⟩
  | boolean b =>
    obtain rfl : [] = text := Option.some.inj htext
    rw [List.nil_append, hrest.literal] at hl
    cases hl
  | number x =>
    obtain rfl : rt.numberText x = text := Option.some.inj htext
    rw [cstring_append (hrt.not_mem_zero x)] at hl
    cases l with
    | number q =>
      obtain ⟨hfinite, hx⟩ := hd
      have hne : rt.numberText x ≠ [] := by
        intro hnil
        rw [hnil, List.nil_append, hrest.literal] at hl
        cases hl
      obtain ⟨r', hnumber, rfl⟩ := (literal_number_iff hne (hrt.bytes x) hrest.separates).1 hl
      refine ⟨r', rfl, fun b hb => hrt.bytes x b ((number_suffix hnumber).subset hb), ?_⟩
      rintro rfl
      exact ⟨hfinite, q, hnumber, hx⟩
    | _ => cases hd
  | string s =>
    cases l with
    | string w =>
      obtain rfl : w = s := hd
      cases hnumeric : rt.textNumber w with
      | some x =>
        rw [encodeValue_numeric hnumeric] at htext
        obtain rfl := Option.some.inj htext
        obtain ⟨hquote, hdouble⟩ := hrt.unquoted w x hnumeric
        exact absurd hl (literal_ne_string hquote hdouble hrest)
      | none =>
        rw [encodeValue_string hnumeric] at htext
        obtain rfl := Option.some.inj htext
        obtain ⟨rfl, hplain, hzero⟩ := plain_of_literal hrest hl
        exact ⟨[], rfl, by simp, fun _ => ⟨hnumeric, hplain, hzero⟩⟩
    | _ => cases hd
  | _ => cases htext

/-! ### The clause -/

variable {words : ReservedWords} {condition : Option (List Byte)}

/-- The end of a statement: nothing or a condition. -/
theorem cstring_whereText (condition : Option (List Byte)) :
    cstring (whereText condition) = [] ∨ ∃ rest, cstring (whereText condition) = asciiBytes " where " ++ rest := by
  cases condition with
  | none => exact .inl rfl
  | some condition => exact .inr ⟨cstring condition, cstring_append (by decide) condition⟩

theorem follows_whereText (condition : Option (List Byte)) : Follows (cstring (whereText condition)) :=
  (cstring_whereText condition).imp_right .inr

theorem symbol_whereText (condition : Option (List Byte)) : symbol comma (cstring (whereText condition)) = none := by
  rcases cstring_whereText condition with h | ⟨rest, h⟩ <;> rw [h] <;> rfl

/-- No assignment begins there. -/
theorem columnName_whereText (words : ReservedWords) (condition : Option (List Byte)) :
    columnName words.isReserved (cstring (whereText condition)) = none := by
  rcases cstring_whereText condition with h | ⟨rest, h⟩
  · rw [h]
    rfl
  · rw [h]
    have hskip : skipSpace (asciiBytes " where " ++ rest) = 119 :: (asciiBytes "here " ++ rest) := rfl
    have htake : (119 :: (asciiBytes "here " ++ rest)).takeWhile isIdent = asciiBytes "where" := rfl
    unfold columnName
    simp only [hskip, htake, words.isReserved_where]
    simp

/-- One assignment. -/
theorem assignments_succ {name : List Byte} (hname : IsName name) (n : ℕ) (input : List Byte) :
    assignments words.isReserved (n + 1) (name ++ equals :: input) =
      if words.isReserved name then none
      else (literal input).bind fun p =>
        match symbol comma p.2 with
        | none => some ([(name, p.1)], p.2)
        | some rest => (assignments words.isReserved n rest).map fun more => ((name, p.1) :: more.1, more.2) := by
  simp only [assignments, columnName_append words.isReserved hname]
  cases words.isReserved name with
  | true => rfl
  | false =>
    have hequals := symbol_cons (b := equals) (by decide) input
    simp only [Bool.false_eq_true, if_false, Option.bind_eq_bind, Option.bind_some, hequals]
    cases literal input with
    | none => rfl
    | some p =>
      simp only [Option.bind_some]
      cases symbol comma p.2 with
      | none => rfl
      | some rest =>
        dsimp only
        rw [Option.map_eq_bind]
        rfl

/-- The text of some entries: an assignment, and then nothing or a comma and the text of the others. -/
theorem encodePairs_split {name : List Byte} {es : LuaEntries}
    (htext : encodePairs rt false ((.string name, v) :: es) [] = some text) :
    ∃ value more, encodeValue rt v = some value ∧ text = name ++ equals :: (value ++ more) ∧
      (es = [] ∧ more = [] ∨ ∃ e es' text', es = e :: es' ∧ encodePairs rt false (e :: es') [] = some text' ∧
        more = comma :: text') := by
  rw [encodePairs_cons] at htext
  obtain ⟨value, hvalue, hmap⟩ := Option.bind_eq_some_iff.1 htext
  obtain ⟨more, hmore, rfl⟩ := Option.map_eq_some_iff.1 hmap
  refine ⟨value, more, hvalue, ?_, ?_⟩
  · simp [encodeKey, tolstring, LuaValue.ofKey, LuaRuntime.tostring, asciiBytes, equals]
  · cases es with
    | nil => exact .inl ⟨rfl, (Option.some.inj hmore).symm⟩
    | cons e es =>
      rw [encodePairs_true] at hmore
      obtain ⟨text', htext', rfl⟩ := Option.map_eq_some_iff.1 hmore
      exact .inr ⟨e, es, text', rfl, htext', rfl⟩

theorem cstring_name {name : List Byte} (hname : IsName name) (t : List Byte) :
    cstring (name ++ equals :: t) = name ++ equals :: cstring t := by
  have hne : (0 : Byte) ≠ equals := by decide
  have happend := cstring_append (s := name ++ [equals]) (by simpa [hne] using hname.not_mem_zero) t
  simpa using happend

/-- **An entry that reads back** is read as an assignment. -/
theorem assignments_of_readsBack (words : ReservedWords) (hrt : NumberTexts rt) {name : List Byte} (hname : IsName name)
    (hfree : words.isReserved name = false) (hv : ReadsBack rt v) (htext : encodeValue rt v = some text)
    {t : List Byte} (hrest : Follows (cstring t)) :
    ∃ l, Denotes l v ∧ cstring (name ++ equals :: (text ++ t)) = name ++ equals :: (text ++ cstring t) ∧
      ∀ n, assignments words.isReserved (n + 1) (cstring (name ++ equals :: (text ++ t))) =
        match symbol comma (cstring t) with
        | none => some ([(name, l)], cstring t)
        | some rest => (assignments words.isReserved n rest).map fun more => ((name, l) :: more.1, more.2) := by
  obtain ⟨hzero, l, hl, hd⟩ := literal_of_readsBack hrt hv htext hrest
  refine ⟨l, hd, ?_, fun n => ?_⟩
  · rw [cstring_name hname, cstring_append hzero]
  · rw [cstring_name hname, cstring_append hzero, assignments_succ hname, hfree, hl]
    rfl

/-- Entries that read back are read as assignments, in as many turns as there are entries. -/
theorem clause_of_readsBack (condition : Option (List Byte)) (hrt : NumberTexts rt) {e : LuaKey × LuaValue} {es : LuaEntries}
    (hkeys : ∀ e' ∈ e :: es, NameKey e'.1) (hgood : ∀ e' ∈ e :: es, FreeKey words e'.1 ∧ ReadsBack rt e'.2)
    (htext : encodePairs rt false (e :: es) [] = some text) :
    ∃ as, Assigns as (e :: es) ∧ (e :: es).length ≤ (cstring (text ++ whereText condition)).length ∧
      ∀ n, (e :: es).length ≤ n → assignments words.isReserved n (cstring (text ++ whereText condition)) =
        some (as, cstring (whereText condition)) := by
  induction es generalizing e text with
  | nil =>
    obtain ⟨key, v⟩ := e
    obtain ⟨name, rfl, hname⟩ := hkeys _ List.mem_cons_self
    obtain ⟨hfree, hv⟩ := hgood _ List.mem_cons_self
    obtain ⟨value, more, hvalue, rfl, ⟨-, rfl⟩ | ⟨e, es', text', heq, -⟩⟩ := encodePairs_split htext
    · obtain ⟨l, hd, hcut, hturn⟩ := assignments_of_readsBack words hrt hname (hfree name rfl) hv hvalue
        (follows_whereText condition)
      simp only [List.append_assoc, List.cons_append, List.append_nil]
      refine ⟨[(name, l)], .cons ⟨rfl, hd⟩ .nil, ?_, fun n hn => ?_⟩
      · rw [hcut]
        simp only [List.length_append, List.length_cons, List.length_nil]
        omega
      · obtain ⟨n, rfl⟩ := Nat.exists_eq_add_of_le' hn
        rw [List.length_singleton, hturn, symbol_whereText]
    · cases heq
  | cons e' es ih =>
    obtain ⟨key, v⟩ := e
    obtain ⟨name, rfl, hname⟩ := hkeys _ List.mem_cons_self
    obtain ⟨hfree, hv⟩ := hgood _ List.mem_cons_self
    obtain ⟨value, more, hvalue, rfl, ⟨hnil, -⟩ | ⟨e'', es', text', heq, htext', rfl⟩⟩ := encodePairs_split htext
    · cases hnil
    · obtain ⟨rfl, rfl⟩ := List.cons.inj heq
      obtain ⟨as, ha, hlength, has⟩ := ih (fun e he => hkeys e (List.mem_cons_of_mem _ he))
        (fun e he => hgood e (List.mem_cons_of_mem _ he)) htext'
      have hcomma : cstring (comma :: text' ++ whereText condition) =
          comma :: cstring (text' ++ whereText condition) := rfl
      obtain ⟨l, hd, hcut, hturn⟩ := assignments_of_readsBack words hrt hname (hfree name rfl) hv hvalue
        (t := comma :: text' ++ whereText condition) (.inr (.inl ⟨_, hcomma⟩))
      have hassoc : name ++ equals :: (value ++ comma :: text') ++ whereText condition =
          name ++ equals :: (value ++ (comma :: text' ++ whereText condition)) := by simp
      rw [hassoc]
      refine ⟨(name, l) :: as, .cons ⟨rfl, hd⟩ ha, ?_, fun n hn => ?_⟩
      · rw [hcut, hcomma]
        simp only [List.length_append, List.length_cons] at hlength ⊢
        omega
      · obtain ⟨n, rfl⟩ := Nat.exists_eq_add_of_le' ((Nat.le_add_left 1 _).trans hn)
        rw [hturn, hcomma, symbol_cons (by decide)]
        dsimp only
        rw [has n (Nat.le_of_succ_le_succ hn)]
        rfl

/-- **An assignment that is an entry's** is the text of one that reads back. What follows it is another one, or what
may be left of a number and the rest of the statement. -/
theorem readsBack_of_assignments (hrt : NumberTexts rt) {name : List Byte} (hname : IsName name)
    (htext : encodeValue rt v = some text) {t : List Byte} (hrest : Follows (cstring t)) {n : ℕ}
    {as : List (List Byte × Literal)} {r : List Byte}
    (h : assignments words.isReserved n (cstring (name ++ equals :: (text ++ t))) = some (as, r)) {es : LuaEntries}
    (ha : Assigns as ((.string name, v) :: es)) :
    words.isReserved name = false ∧
      ((es = [] ∧ ∃ r', r = r' ++ cstring t ∧ (r' = [] → ReadsBack rt v)) ∨
        ReadsBack rt v ∧ ∃ rest n' as', symbol comma (cstring t) = some rest ∧
          assignments words.isReserved n' rest = some (as', r) ∧ Assigns as' es) := by
  cases n with
  | zero => cases h
  | succ n =>
    rw [cstring_name hname, assignments_succ hname] at h
    split_ifs at h with hreserved
    refine ⟨by simpa using hreserved, ?_⟩
    obtain ⟨⟨l, s⟩, hl, hmore⟩ := Option.bind_eq_some_iff.1 h
    dsimp only at hmore
    cases hsymbol : symbol comma s with
    | none =>
      rw [hsymbol] at hmore
      obtain ⟨rfl, rfl⟩ := Prod.mk.inj (Option.some.inj hmore)
      obtain ⟨⟨-, hd⟩, hnil⟩ := List.forall₂_cons.1 ha
      obtain ⟨r', hr, -, hv⟩ := readsBack_of_literal hrt htext hrest hl hd
      exact .inl ⟨List.forall₂_nil_left_iff.1 hnil, r', hr, hv⟩
    | some rest =>
      rw [hsymbol] at hmore
      obtain ⟨⟨as', r'⟩, has, heq⟩ := Option.map_eq_some_iff.1 hmore
      obtain ⟨rfl, rfl⟩ := Prod.mk.inj heq
      obtain ⟨⟨-, hd⟩, ha'⟩ := List.forall₂_cons.1 ha
      obtain ⟨left, rfl, hbytes, hv⟩ := readsBack_of_literal hrt htext hrest hl hd
      cases left with
      | nil => exact .inr ⟨hv rfl, rest, n, as', hsymbol, has, ha'⟩
      | cons b left =>
        -- No comma follows a number of which something is left.
        obtain ⟨hspace, hcomma, -⟩ := isNumberByte_spec (hbytes b List.mem_cons_self)
        rw [List.cons_append, symbol_ne hspace hcomma] at hsymbol
        cases hsymbol

/-- Entries that are read as assignments read back. -/
theorem readsBack_of_clause (hrt : NumberTexts rt) {e : LuaKey × LuaValue} {es : LuaEntries}
    (hkeys : ∀ e' ∈ e :: es, NameKey e'.1) (htext : encodePairs rt false (e :: es) [] = some text) {n : ℕ}
    {as : List (List Byte × Literal)}
    (h : assignments words.isReserved n (cstring (text ++ whereText condition)) =
      some (as, cstring (whereText condition))) (ha : Assigns as (e :: es)) :
    ∀ e' ∈ e :: es, FreeKey words e'.1 ∧ ReadsBack rt e'.2 := by
  induction es generalizing e text n as with
  | nil =>
    obtain ⟨key, v⟩ := e
    obtain ⟨name, rfl, hname⟩ := hkeys _ List.mem_cons_self
    obtain ⟨value, more, hvalue, rfl, ⟨-, rfl⟩ | ⟨e, es', text', heq, -⟩⟩ := encodePairs_split htext
    · simp only [List.append_assoc, List.cons_append, List.append_nil] at h
      obtain ⟨hreserved, hv⟩ := readsBack_of_assignments hrt hname hvalue (follows_whereText condition) h ha
      intro e' he'
      obtain rfl := List.mem_singleton.1 he'
      refine ⟨fun name' heq => LuaKey.string.inj heq ▸ hreserved, ?_⟩
      rcases hv with ⟨-, r', hr, hv⟩ | ⟨hv, -⟩
      · exact hv (List.self_eq_append_left.1 hr)
      · exact hv
    · cases heq
  | cons e' es ih =>
    obtain ⟨key, v⟩ := e
    obtain ⟨name, rfl, hname⟩ := hkeys _ List.mem_cons_self
    obtain ⟨value, more, hvalue, rfl, ⟨hnil, -⟩ | ⟨e'', es', text', heq, htext', rfl⟩⟩ := encodePairs_split htext
    · cases hnil
    · obtain ⟨rfl, rfl⟩ := List.cons.inj heq
      have hassoc : name ++ equals :: (value ++ comma :: text') ++ whereText condition =
          name ++ equals :: (value ++ (comma :: text' ++ whereText condition)) := by simp
      have hcomma : cstring (comma :: text' ++ whereText condition) =
          comma :: cstring (text' ++ whereText condition) := rfl
      rw [hassoc] at h
      obtain ⟨hreserved, hv⟩ := readsBack_of_assignments hrt hname hvalue (.inr (.inl ⟨_, hcomma⟩)) h ha
      rcases hv with ⟨hnil, -⟩ | ⟨hv, rest, n', as', hsymbol, has, ha'⟩
      · cases hnil
      · rw [hcomma, symbol_cons (by decide)] at hsymbol
        obtain rfl := Option.some.inj hsymbol
        have hrest := ih (fun e he => hkeys e (List.mem_cons_of_mem _ he)) htext' has ha'
        rw [List.forall_mem_cons]
        exact ⟨⟨fun name' heq => LuaKey.string.inj heq ▸ hreserved, hv⟩, hrest⟩

/-- The entries as `lua_next` visits them. -/
theorem setsRecord_iff (hrt : NumberTexts rt) {es : LuaEntries} (hkeys : ∀ e ∈ es, NameKey e.1)
    (htext : encodeTable rt es [] = some text) :
    SetsRecord rt words es text condition ↔ ∀ e ∈ es, FreeKey words e.1 ∧ ReadsBack rt e.2 := by
  have hvisited : ∀ P : LuaKey × LuaValue → Prop, (∀ e ∈ rt.next es, P e) ↔ ∀ e ∈ es, P e := fun P => by
    simp only [(rt.next_perm es).mem_iff]
  rw [← hvisited] at hkeys ⊢
  unfold SetsRecord setClause
  unfold encodeTable at htext
  generalize rt.next es = visited at hkeys htext
  cases visited with
  | nil =>
    obtain rfl : [] = text := Option.some.inj htext
    rw [List.nil_append, columnName_whereText]
    exact iff_of_true ⟨[], rfl, .nil⟩ (by simp)
  | cons e visited =>
    obtain ⟨key, v⟩ := e
    obtain ⟨name, rfl, hname⟩ := hkeys _ List.mem_cons_self
    obtain ⟨value, more, -, rfl, -⟩ := encodePairs_split htext
    have hcut : cstring (name ++ equals :: (value ++ more) ++ whereText condition) =
        name ++ equals :: cstring (value ++ more ++ whereText condition) := by
      rw [List.append_assoc, List.cons_append, cstring_name hname]
    have hcolumn := columnName_append words.isReserved hname
      (cstring (value ++ more ++ whereText condition))
    rw [← hcut] at hcolumn
    rw [hcolumn]
    cases hreserved : words.isReserved name with
    | true =>
      simp only [if_true]
      refine iff_of_false ?_ fun hgood => ?_
      · rintro ⟨as, heq, ha⟩
        obtain ⟨rfl, -⟩ := Prod.mk.inj (Option.some.inj heq)
        cases ha
      · have hfree := (hgood _ List.mem_cons_self).1 name rfl
        rw [hreserved] at hfree
        cases hfree
    | false =>
      simp only [Bool.false_eq_true, if_false]
      constructor
      · rintro ⟨as, has, ha⟩
        exact readsBack_of_clause hrt hkeys htext has ha
      · intro hgood
        obtain ⟨as, ha, hlength, has⟩ := clause_of_readsBack condition hrt hkeys hgood htext
        exact ⟨as, has _ hlength, ha⟩

/-- **The text of a record.** It is refused exactly if a value is of another type than nil, boolean, number and
string. Otherwise MySQL reads the assignments of the record from it, in a statement with or without a condition,
exactly if no key is a reserved word and every value reads back. -/
theorem set_clause_iff (hrt : NumberTexts rt) {es : LuaEntries} (hkeys : ∀ e ∈ es, NameKey e.1) :
    (encodeTable rt es [] = none ↔ ∃ e ∈ es, ¬ Encodable e.2) ∧
      ∀ text, encodeTable rt es [] = some text → ∀ condition,
        (SetsRecord rt words es text condition ↔ ∀ e ∈ es, FreeKey words e.1 ∧ ReadsBack rt e.2) :=
  ⟨encodeTable_eq_none_iff es [], fun _ htext _ => setsRecord_iff hrt hkeys htext⟩

/-! ### A record -/

/-- A runtime whose conversions know the natural numbers. -/
def naturalRuntime : LuaRuntime where
  numberText x := if x = BinaryFloat.ofInt 0 then asciiBytes "0"
    else ((Nat.digits 10 (x.truncate.getD 0).toNat).reverse).map fun d => 48 + UInt8.ofNat d
  textNumber s := if s ≠ [] ∧ s.all isDigit then some (BinaryFloat.ofInt (digitsValue s)) else none
  next es := es
  next_perm es := .refl es

theorem naturalRuntime_numberTexts : NumberTexts naturalRuntime where
  bytes x b hb := by
    unfold naturalRuntime at hb
    dsimp only at hb
    split_ifs at hb
    · obtain rfl := List.mem_singleton.1 hb
      decide
    · obtain ⟨d, hd, rfl⟩ := List.mem_map.1 hb
      have hlt := Nat.digits_lt_base (by decide) (List.mem_reverse.1 hd)
      interval_cases d <;> decide
  unquoted s x hx := by
    unfold naturalRuntime at hx
    dsimp only at hx
    split_ifs at hx with hdigits
    have hall := List.all_eq_true.1 hdigits.2
    exact ⟨fun h => absurd (hall _ h) (by decide), fun h => absurd (hall _ h) (by decide)⟩

/-- No word but one is reserved. -/
def onlyWhere : ReservedWords := ⟨fun word => word = asciiBytes "where", by simp⟩

/-- A player. -/
def player : LuaEntries :=
  [(.string (asciiBytes "name"), .string (asciiBytes "x")),
    (.string (asciiBytes "level"), .number (BinaryFloat.ofInt 12))]

theorem player_keys : ∀ e ∈ player, NameKey e.1 := by
  have hname : IsName (asciiBytes "name") := ⟨⟨110, asciiBytes "ame", rfl, by decide⟩, List.all_eq_true.1 rfl⟩
  have hlevel : IsName (asciiBytes "level") := ⟨⟨108, asciiBytes "evel", rfl, by decide⟩, List.all_eq_true.1 rfl⟩
  intro e he
  rcases List.mem_pair.1 he with rfl | rfl
  · exact ⟨_, rfl, hname⟩
  · exact ⟨_, rfl, hlevel⟩

/-- What is needed of the number 12. -/
theorem twelve_readsBack :
    naturalRuntime.numberText (BinaryFloat.ofInt 12) = asciiBytes "12" ∧
      ReadsBack naturalRuntime (.number (BinaryFloat.ofInt 12)) := by
  have hrep : binary64.Representable (12 : ℤ) := FloatFormat.representable_intCast (by decide) (by decide) (by decide)
  have hvalue : (BinaryFloat.ofInt 12 : Double).value = .finite (12 : ℤ) := FloatFormat.round_of_representable hrep
  have hzero : (BinaryFloat.ofInt 0 : Double).value = .finite 0 := FloatFormat.round_zero
  have hne : (BinaryFloat.ofInt 12 : Double) ≠ BinaryFloat.ofInt 0 := by
    intro heq
    rw [heq, hzero] at hvalue
    simp at hvalue
  have htext : naturalRuntime.numberText (BinaryFloat.ofInt 12) = asciiBytes "12" := by
    unfold naturalRuntime
    dsimp only
    rw [if_neg hne, BinaryFloat.truncate_ofInt hrep]
    simp
    decide
  have hnumber : number (asciiBytes "12") = some (((12 : ℤ) : ℚ), []) := by
    have hdigits : digitsValue (asciiBytes "12" ++ []) = 12 := by decide
    have hvalue : numeralValue (asciiBytes "12") [] 0 = 12 := by
      unfold numeralValue
      rw [hdigits]
      norm_num
    have hread : number (asciiBytes "12") = some (numeralValue (asciiBytes "12") [] 0, []) := rfl
    rw [hread, hvalue]
    norm_num
  refine ⟨htext, ⟨_, hvalue⟩, _, ?_, rfl⟩
  rw [htext]
  exact hnumber

/-- The record of a player is set. -/
theorem set_clause_player :
    SetsRecord naturalRuntime onlyWhere player (asciiBytes "name='x',level=12") (some (asciiBytes "id=1")) := by
  have hname : encodeValue naturalRuntime (.string (asciiBytes "x")) = some (asciiBytes "'x'") := by decide
  have hlevel : encodeValue naturalRuntime (.number (BinaryFloat.ofInt 12)) = some (asciiBytes "12") := by
    rw [← twelve_readsBack.1]
    rfl
  have htext : encodeTable naturalRuntime player [] = some (asciiBytes "name='x',level=12") := by
    have hnext : naturalRuntime.next player = player := rfl
    unfold encodeTable
    rw [hnext]
    unfold player
    simp only [encodePairs, hname, hlevel, Option.bind_eq_bind, Option.bind_some]
    decide
  refine ((set_clause_iff naturalRuntime_numberTexts player_keys).2 _ htext _).2 fun e he => ?_
  rcases List.mem_pair.1 he with rfl | rfl
  · exact ⟨fun name heq => LuaKey.string.inj heq ▸ (by decide), by decide,
      ⟨by decide, fun h => absurd h (by decide), trivial⟩, by decide⟩
  · exact ⟨fun name heq => LuaKey.string.inj heq ▸ (by decide), twelve_readsBack.2⟩

/-- A player whose name goes on after a quote. -/
def forger : LuaEntries := [(.string (asciiBytes "name"), .string (asciiBytes "x',level='99"))]

/-- The record has one entry, and MySQL reads two assignments. -/
theorem forger_sets_level :
    ¬ ∀ (rt : LuaRuntime) (words : ReservedWords) (es : LuaEntries) (text : List Byte),
      NumberTexts rt → (∀ e ∈ es, NameKey e.1) → encodeTable rt es [] = some text →
        ∀ condition, SetsRecord rt words es text condition := by
  intro h
  have hname : IsName (asciiBytes "name") := ⟨⟨110, asciiBytes "ame", rfl, by decide⟩, List.all_eq_true.1 rfl⟩
  obtain ⟨as, hclause, ha⟩ := h naturalRuntime onlyWhere forger (asciiBytes "name='x',level='99'")
    naturalRuntime_numberTexts (by
      intro e he
      obtain rfl := List.mem_singleton.1 he
      exact ⟨_, rfl, hname⟩) (by decide) none
  have hread : setClause onlyWhere.isReserved (cstring (asciiBytes "name='x',level='99'" ++ whereText none)) =
      some ([(asciiBytes "name", .string (asciiBytes "x")),
        (asciiBytes "level", .string (asciiBytes "99"))], []) := by
    decide
  rw [hread] at hclause
  obtain ⟨rfl, -⟩ := Prod.mk.inj (Option.some.inj hclause)
  exact absurd (List.Forall₂.length_eq ha) (by decide)

end Slam.Db
