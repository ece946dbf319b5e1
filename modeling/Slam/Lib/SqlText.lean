import Mathlib.Tactic

/-!
# The text of a `SET` clause

The lexical rules of MySQL in its default mode, as far as a clause `name = literal, name = literal, ...` needs
them. A string is quoted and has a quote doubled or behind a backslash, a backslash also stands before other
bytes (`unescape`), and a number is digits with a point and an exponent. A literal is one string, or a number with
at most one sign, or one of the words for null, true and false. There is no place in such a clause where a
comment could begin; between its parts there may be spaces.

* `quoted`: a string up to the quote that ends it;
* `number`, `literal`, `columnName`: the parts of the clause, and `setClause`: the clause and what follows it;
* `quoted_plain`, `plain_of_quoted`: which strings stand for themselves, if a separator follows the quote;
* `numeral_append`, `literal_number_iff`: a number does not depend on what follows the separator.
-/

namespace SqlText

/-- `'` -/
abbrev quote : UInt8 := 39

/-- `"` -/
abbrev doubleQuote : UInt8 := 34

/-- A backslash. -/
abbrev backslash : UInt8 := 92

/-- `%` -/
abbrev percent : UInt8 := 37

/-- `_` -/
abbrev underscore : UInt8 := 95

/-- `,` -/
abbrev comma : UInt8 := 44

/-- `=` -/
abbrev equals : UInt8 := 61

/-- `.` -/
abbrev point : UInt8 := 46

/-- `+` -/
abbrev plus : UInt8 := 43

/-- `-` -/
abbrev minus : UInt8 := 45

/-- White space. -/
def isSpace (b : UInt8) : Bool := b == 32 || (9 ≤ b && b ≤ 13)

/-- `0` to `9` -/
def isDigit (b : UInt8) : Bool := 48 ≤ b && b ≤ 57

/-- A byte of an unquoted name. -/
def isIdent (b : UInt8) : Bool :=
  isDigit b || (65 ≤ b && b ≤ 90) || (97 ≤ b && b ≤ 122) || b == 36 || b == underscore || 128 ≤ b

/-- What the byte behind a backslash stands for; before `%` and `_` the backslash stays. -/
def unescape (b : UInt8) : List UInt8 :=
  if b = 48 then [0]
  else if b = 98 then [8]
  else if b = 110 then [10]
  else if b = 114 then [13]
  else if b = 116 then [9]
  else if b = 90 then [26]
  else if b = percent ∨ b = underscore then [backslash, b]
  else [b]

/-- A string, from behind its quote: what it stands for, and what follows the quote at its end. -/
def quoted (delim : UInt8) : List UInt8 → Option (List UInt8 × List UInt8)
  | [] => none
  | [c] => if c = delim then some ([], []) else none
  | c :: d :: rest =>
    if c = delim then
      if d = delim then (quoted delim rest).map (Prod.map (delim :: ·) id) else some ([], d :: rest)
    else if c = backslash then (quoted delim rest).map (Prod.map (unescape d ++ ·) id)
    else (quoted delim (d :: rest)).map (Prod.map (c :: ·) id)

/-- The number that some digits are. -/
def digitsValue (ds : List UInt8) : ℕ := ds.foldl (fun v d => 10 * v + (d.toNat - 48)) 0

/-- The digits of an exponent, which are at least one. -/
def exponentDigits (negative : Bool) (input : List UInt8) : Option (ℤ × List UInt8) :=
  let ds := input.takeWhile isDigit
  if ds = [] then none
  else some (if negative then -(digitsValue ds : ℤ) else digitsValue ds, input.dropWhile isDigit)

/-- An exponent. -/
def exponent : List UInt8 → Option (ℤ × List UInt8)
  | [] => none
  | c :: input =>
    if c = 101 ∨ c = 69 then
      match input with
      | [] => none
      | d :: rest =>
        if d = minus then exponentDigits true rest
        else if d = plus then exponentDigits false rest
        else exponentDigits false (d :: rest)
    else none

/-- The value of digits before and behind the point, with an exponent. -/
def numeralValue (whole fraction : List UInt8) (exp : ℤ) : ℚ :=
  digitsValue (whole ++ fraction) * (10 : ℚ) ^ (exp - fraction.length)

/-- A number with a point, from behind the digits after it. -/
def decimal (whole fraction : List UInt8) : List UInt8 → Option (ℚ × List UInt8)
  | [] => some (numeralValue whole fraction 0, [])
  | c :: rest =>
    if c = 101 ∨ c = 69 then (exponent (c :: rest)).map (Prod.map (numeralValue whole fraction) id)
    else some (numeralValue whole fraction 0, c :: rest)

/-- A number without a point, from behind its digits. If they run into a letter that is no exponent they are the
start of a name. -/
def integer (whole input : List UInt8) : Option (ℚ × List UInt8) :=
  match exponent input with
  | some (exp, rest) => some (numeralValue whole [] exp, rest)
  | none => if input.head?.any isIdent then none else some (numeralValue whole [] 0, input)

/-- A number with a point, from behind the point. -/
def fractional (whole input : List UInt8) : Option (ℚ × List UInt8) :=
  let fraction := input.takeWhile isDigit
  if whole = [] ∧ fraction = [] then none else decimal whole fraction (input.dropWhile isDigit)

/-- A number without a sign. -/
def numeral (input : List UInt8) : Option (ℚ × List UInt8) :=
  let whole := input.takeWhile isDigit
  let input := input.dropWhile isDigit
  if input.head? = some point then fractional whole input.tail
  else if whole = [] then none
  else integer whole input

/-- A number. -/
def number : List UInt8 → Option (ℚ × List UInt8)
  | [] => none
  | c :: rest =>
    if c = minus then (numeral rest).map (Prod.map (- ·) id)
    else if c = plus then numeral rest
    else numeral (c :: rest)

/-- A literal. -/
inductive Literal
  | null
  | boolean (b : Bool)
  | number (q : ℚ)
  | string (s : List UInt8)
  deriving DecidableEq

/-- Letters in lower case. -/
def lower (b : UInt8) : UInt8 := if 65 ≤ b ∧ b ≤ 90 then b + 32 else b

/-- The words that are literals: `null`, `true` and `false`. -/
def keyword (word : List UInt8) : Option Literal :=
  let word := word.map lower
  if word = [110, 117, 108, 108] then some .null
  else if word = [116, 114, 117, 101] then some (.boolean true)
  else if word = [102, 97, 108, 115, 101] then some (.boolean false)
  else none

/-- What follows spaces. -/
def skipSpace (input : List UInt8) : List UInt8 := input.dropWhile isSpace

/-- The literal at the start of a text that does not start with a space. -/
def literalHere : List UInt8 → Option (Literal × List UInt8)
  | [] => none
  | c :: rest =>
    if c = quote ∨ c = doubleQuote then (quoted c rest).map (Prod.map .string id)
    else if isDigit c ∨ c = point ∨ c = minus ∨ c = plus then (number (c :: rest)).map (Prod.map .number id)
    else (keyword ((c :: rest).takeWhile isIdent)).map fun l => (l, (c :: rest).dropWhile isIdent)

/-- A literal, after spaces. -/
def literal (input : List UInt8) : Option (Literal × List UInt8) := literalHere (skipSpace input)

/-- One byte, after spaces. -/
def symbol (b : UInt8) (input : List UInt8) : Option (List UInt8) :=
  match skipSpace input with
  | [] => none
  | c :: rest => if c = b then some rest else none

/-- A name that need not be quoted, unless it is reserved: it does not begin with a digit. -/
def IsName (name : List UInt8) : Prop := (∃ c rest, name = c :: rest ∧ isDigit c = false) ∧ ∀ b ∈ name, isIdent b

/-- A name, after spaces. It may not be a reserved word. -/
def columnName (reserved : List UInt8 → Bool) (input : List UInt8) : Option (List UInt8 × List UInt8) :=
  match skipSpace input with
  | [] => none
  | c :: rest =>
    let name := (c :: rest).takeWhile isIdent
    if name = [] ∨ isDigit c ∨ reserved name then none else some (name, (c :: rest).dropWhile isIdent)

/-- At least one assignment and at most so many, with commas between them. -/
def assignments (reserved : List UInt8 → Bool) : ℕ → List UInt8 → Option (List (List UInt8 × Literal) × List UInt8)
  | 0, _ => none
  | n + 1, input => do
    let (name, rest) ← columnName reserved input
    let rest ← symbol equals rest
    let (value, rest) ← literal rest
    match symbol comma rest with
    | none => return ([(name, value)], rest)
    | some rest =>
      let (more, rest) ← assignments reserved n rest
      return ((name, value) :: more, rest)

/-- A clause and what follows it. Where no name stands it has no assignment. -/
def setClause (reserved : List UInt8 → Bool) (input : List UInt8) :
    Option (List (List UInt8 × Literal) × List UInt8) :=
  match columnName reserved input with
  | none => some ([], input)
  | some _ => assignments reserved input.length input

/-! ### Strings -/

/-- What a string may hold without standing for something else: no quote, and no backslash but before `%` and
`_`. -/
def Plain : List UInt8 → Prop
  | [] => True
  | c :: rest => c ≠ quote ∧ (c = backslash → rest.head? = some percent ∨ rest.head? = some underscore) ∧ Plain rest

/-- The bytes that make a string differ from what it stands for. -/
def Special (b : UInt8) : Prop := b = quote ∨ b = backslash

instance : DecidablePred Special := fun b => inferInstanceAs (Decidable (b = quote ∨ b = backslash))

/-- What follows the end of a string does not begin with such a byte. -/
def NoSpecial (rest : List UInt8) : Prop := ∀ b ∈ rest.head?, ¬ Special b

theorem exists_of_map {α β γ : Type} {f : α → γ} {o : Option (α × β)} {c : γ} {b : β}
    (h : o.map (Prod.map f id) = some (c, b)) : ∃ a, o = some (a, b) ∧ f a = c := by
  obtain ⟨⟨a, b'⟩, ho, heq⟩ := Option.map_eq_some_iff.1 h
  simp only [Prod.map, id, Prod.mk.injEq] at heq
  obtain ⟨hf, rfl⟩ := heq
  exact ⟨a, ho, hf⟩

theorem length_unescape_le (b : UInt8) : (unescape b).length ≤ 2 := by
  unfold unescape
  split_ifs <;> simp

/-- A string is shorter than its text. -/
theorem length_quoted {delim : UInt8} {input s rest : List UInt8} (h : quoted delim input = some (s, rest)) :
    s.length < input.length := by
  fun_induction quoted delim input generalizing s with
  | case1 => cases h
  | case2 =>
    obtain ⟨rfl, rfl⟩ := Prod.mk.inj (Option.some.inj h)
    simp
  | case3 => cases h
  | case4 tail ih =>
    obtain ⟨s', hrest, rfl⟩ := exists_of_map h
    have hlength := ih hrest
    simp only [List.length_cons]
    omega
  | case5 =>
    obtain ⟨rfl, rfl⟩ := Prod.mk.inj (Option.some.inj h)
    simp
  | case6 d tail hdelim ih =>
    obtain ⟨s', hrest, rfl⟩ := exists_of_map h
    have hlength := ih hrest
    have hescape := length_unescape_le d
    simp only [List.length_append, List.length_cons]
    omega
  | case7 c d tail hdelim hback ih =>
    obtain ⟨s', hrest, rfl⟩ := exists_of_map h
    have hlength := ih hrest
    simp only [List.length_cons] at hlength ⊢
    omega

/-- A byte that is not special stands for itself. -/
theorem quoted_cons {b : UInt8} (hb : ¬ Special b) (input : List UInt8) :
    quoted quote (b :: input) = (quoted quote input).map (Prod.map (b :: ·) id) := by
  obtain ⟨hquote, hback⟩ := not_or.1 hb
  cases input with
  | nil => simp [quoted, hquote]
  | cons d rest => simp [quoted, hquote, hback]

/-- Before `%` and `_` a backslash stands for itself. -/
theorem quoted_backslash {d : UInt8} (hd : d = percent ∨ d = underscore) (input : List UInt8) :
    quoted quote (backslash :: d :: input) = (quoted quote input).map (Prod.map (backslash :: d :: ·) id) := by
  have hescape : unescape d = [backslash, d] := by rcases hd with rfl | rfl <;> decide
  rw [quoted, if_neg (by decide), if_pos rfl, hescape]
  rfl

theorem not_special_of {d : UInt8} (hd : d = percent ∨ d = underscore) : ¬ Special d := by
  rcases hd with rfl | rfl <;> decide

/-- The quote at the end. -/
theorem quoted_quote {rest : List UInt8} (hrest : NoSpecial rest) :
    quoted quote (quote :: rest) = some ([], rest) := by
  cases rest with
  | nil => simp [quoted]
  | cons d rest =>
    have hd : d ≠ quote := fun h => hrest d rfl (.inl h)
    simp [quoted, hd]

/-- A plain text stands for itself. -/
theorem quoted_plain {s rest : List UInt8} (hs : Plain s) (hrest : NoSpecial rest) :
    quoted quote (s ++ quote :: rest) = some (s, rest) := by
  induction s with
  | nil => exact quoted_quote hrest
  | cons c s ih =>
    obtain ⟨hquote, hback, hs'⟩ := hs
    by_cases hc : c = backslash
    · subst hc
      cases s with
      | nil => simp at hback
      | cons d s =>
        have hd : d = percent ∨ d = underscore := by simpa using hback rfl
        have hplain := ih hs'
        rw [List.cons_append, quoted_cons (not_special_of hd)] at hplain
        obtain ⟨s', hquoted, heq⟩ := exists_of_map hplain
        obtain rfl := (List.cons.inj heq).2
        rw [List.cons_append, List.cons_append, quoted_backslash hd, hquoted]
        rfl
    · rw [List.cons_append, quoted_cons (by simp [Special, hquote, hc]), ih hs']
      rfl

/-- Where a text does not begin with a special byte, what it stands for does not either. -/
theorem not_special_head {input s rest : List UInt8} {b : UInt8} (hinput : NoSpecial input)
    (h : quoted quote input = some (b :: s, rest)) : ¬ Special b := by
  cases input with
  | nil => simp [quoted] at h
  | cons c input =>
    have hc := hinput c rfl
    rw [quoted_cons hc] at h
    obtain ⟨s', -, heq⟩ := exists_of_map h
    exact (List.cons.inj heq).1 ▸ hc

/-- Such a text is no end of a string. -/
theorem quoted_ne_nil {input rest : List UInt8} (hinput : NoSpecial input) :
    quoted quote input ≠ some ([], rest) := by
  intro h
  cases input with
  | nil => simp [quoted] at h
  | cons c input =>
    rw [quoted_cons (hinput c rfl)] at h
    obtain ⟨s', -, heq⟩ := exists_of_map h
    cases heq

/-- What a byte behind a backslash stands for, if that begins with a special byte. -/
theorem unescape_cases {d b : UInt8} {t : List UInt8} (h : unescape d = b :: t) (hb : Special b) :
    (Special d ∧ t = []) ∨ ((d = percent ∨ d = underscore) ∧ t = [d]) := by
  unfold unescape at h
  split_ifs at h with h0 h1 h2 h3 h4 h5 hwild <;> simp only [List.cons.injEq] at h <;> obtain ⟨rfl, rfl⟩ := h
  iterate 6 exact absurd hb (by decide)
  · exact .inr ⟨hwild, rfl⟩
  · exact .inl ⟨hb, rfl⟩

/-- Two bytes of which the first one is special, if what they stand for begins with a special one. -/
theorem quoted_special {a c d : UInt8} {input s rest : List UInt8} (ha : Special a) (hc : Special c)
    (h : quoted quote (a :: d :: input) = some (c :: s, rest)) :
    (Special d ∧ quoted quote input = some (s, rest)) ∨
      (a = backslash ∧ (d = percent ∨ d = underscore) ∧
        ∃ s', s = d :: s' ∧ quoted quote input = some (s', rest)) := by
  rcases ha with rfl | rfl
  · rw [quoted, if_pos rfl] at h
    split_ifs at h with hd
    · obtain ⟨s', hinput, heq⟩ := exists_of_map h
      obtain rfl := (List.cons.inj heq).2
      exact .inl ⟨.inl hd, hinput⟩
    · simp at h
  · rw [quoted, if_neg (by decide), if_pos rfl] at h
    obtain ⟨s', hinput, heq⟩ := exists_of_map h
    cases hescape : unescape d with
    | nil =>
      unfold unescape at hescape
      split_ifs at hescape
    | cons b t =>
      rw [hescape, List.cons_append] at heq
      obtain ⟨rfl, rfl⟩ := List.cons.inj heq
      rcases unescape_cases hescape hc with ⟨hd, rfl⟩ | ⟨hd, rfl⟩
      · exact .inl ⟨hd, hinput⟩
      · exact .inr ⟨rfl, hd, s', rfl, hinput⟩

/-- **Once a string lags behind its text** by special bytes alone, it does not catch up: what is still to come has
to be special as well, and takes two bytes for each. -/
theorem quoted_ne_of_lag (behind : List UInt8) {s rest rest' : List UInt8} (hne : behind ≠ []) (hbehind : ∀ b ∈ behind, Special b)
    (hrest : NoSpecial rest) : quoted quote (s ++ quote :: rest) ≠ some (behind ++ s, rest') := by
  induction s using List.twoStepInduction generalizing behind with
  | nil =>
    intro h
    rw [List.nil_append, quoted_quote hrest, List.append_nil] at h
    exact hne (Prod.mk.inj (Option.some.inj h)).1.symm
  | singleton a =>
    obtain ⟨c, behind, rfl⟩ := List.exists_cons_of_ne_nil hne
    obtain ⟨hc, hbehind⟩ := List.forall_mem_cons.1 hbehind
    intro h
    rw [List.cons_append, List.nil_append, List.cons_append] at h
    by_cases ha : Special a
    · rcases quoted_special ha hc h with ⟨-, hinput⟩ | ⟨-, hwild, -⟩
      · cases behind with
        | nil => exact not_special_head hrest hinput ha
        | cons b behind => exact not_special_head hrest hinput (hbehind b List.mem_cons_self)
      · exact absurd hwild (by decide)
    · rw [quoted_cons ha] at h
      obtain ⟨s', -, heq⟩ := exists_of_map h
      exact ha ((List.cons.inj heq).1 ▸ hc)
  | cons_cons a b s ih _ =>
    obtain ⟨c, behind, rfl⟩ := List.exists_cons_of_ne_nil hne
    obtain ⟨hc, hbehind⟩ := List.forall_mem_cons.1 hbehind
    intro h
    rw [List.cons_append, List.cons_append, List.cons_append] at h
    by_cases ha : Special a
    · rcases quoted_special ha hc h with ⟨hb, hinput⟩ | ⟨-, hwild, s', heq, -⟩
      · refine ih (behind ++ [a, b]) (by simp) ?_ (by simpa using hinput)
        intro e he
        rcases List.mem_append.1 he with hold | hnew
        · exact hbehind e hold
        · rcases List.mem_pair.1 hnew with rfl | rfl
          · exact ha
          · exact hb
      · -- The next byte to come is special, and `%` and `_` are not.
        cases behind with
        | nil => exact not_special_of hwild ((List.cons.inj heq).1 ▸ ha)
        | cons e behind => exact not_special_of hwild ((List.cons.inj heq).1 ▸ hbehind e List.mem_cons_self)
    · rw [quoted_cons ha] at h
      obtain ⟨s', -, heq⟩ := exists_of_map h
      exact ha ((List.cons.inj heq).1 ▸ hc)

/-- **A string that stands for itself** is plain. -/
theorem plain_of_quoted {s rest rest' : List UInt8} (hrest : NoSpecial rest)
    (h : quoted quote (s ++ quote :: rest) = some (s, rest')) : Plain s := by
  induction s using List.twoStepInduction with
  | nil => trivial
  | singleton a =>
    by_cases ha : Special a
    · rcases quoted_special ha ha h with ⟨-, hinput⟩ | ⟨-, hwild, -⟩
      · exact absurd hinput (quoted_ne_nil hrest)
      · exact absurd hwild (by decide)
    · obtain ⟨hquote, hback⟩ := not_or.1 ha
      exact ⟨hquote, fun heq => absurd heq hback, trivial⟩
  | cons_cons a b s ih ih' =>
    by_cases ha : Special a
    · rcases quoted_special ha ha h with ⟨hb, hinput⟩ | ⟨rfl, hwild, s', heq, hinput⟩
      · exact absurd hinput (quoted_ne_of_lag [b] (by simp) (by simpa using hb) hrest)
      · obtain rfl := (List.cons.inj heq).2
        obtain ⟨hquote, hback⟩ := not_or.1 (not_special_of hwild)
        exact ⟨by decide, fun _ => hwild.imp (congrArg some) (congrArg some),
          hquote, fun heq => absurd heq hback, ih hinput⟩
    · rw [List.cons_append, quoted_cons ha] at h
      obtain ⟨s', hinput, heq⟩ := exists_of_map h
      obtain rfl := (List.cons.inj heq).2
      obtain ⟨hquote, hback⟩ := not_or.1 ha
      exact ⟨hquote, fun heq => absurd heq hback, ih' b hinput⟩

/-! ### Separators -/

/-- What follows a part of a clause: nothing, or a comma or a space first. -/
def Separates (rest : List UInt8) : Prop := ∀ b ∈ rest.head?, b = comma ∨ b = 32

theorem Separates.noSpecial {rest : List UInt8} (h : Separates rest) : NoSpecial rest := by
  intro b hb
  rcases h b hb with rfl | rfl <;> decide

/-- A separator ends every word. -/
theorem takeWhile_append_of_separates {p : UInt8 → Bool} (hcomma : p comma = false) (hspace : p 32 = false)
    (t : List UInt8) {rest : List UInt8} (hrest : Separates rest) :
    (t ++ rest).takeWhile p = t.takeWhile p ∧ (t ++ rest).dropWhile p = t.dropWhile p ++ rest := by
  induction t with
  | nil =>
    cases rest with
    | nil => simp
    | cons b rest =>
      have hb : p b = false := by
        rcases hrest b rfl with rfl | rfl
        · exact hcomma
        · exact hspace
      simp [hb]
  | cons c t ih =>
    obtain ⟨htake, hdrop⟩ := ih
    rw [List.cons_append, List.takeWhile_cons, List.dropWhile_cons, List.takeWhile_cons, List.dropWhile_cons]
    cases p c with
    | true => simp [htake, hdrop]
    | false => simp

theorem digits_append (t : List UInt8) {rest : List UInt8} (hrest : Separates rest) :
    (t ++ rest).takeWhile isDigit = t.takeWhile isDigit ∧
      (t ++ rest).dropWhile isDigit = t.dropWhile isDigit ++ rest :=
  takeWhile_append_of_separates (by decide) (by decide) t hrest

theorem exponentDigits_append (negative : Bool) (t : List UInt8) {rest : List UInt8} (hrest : Separates rest) :
    exponentDigits negative (t ++ rest) = (exponentDigits negative t).map (Prod.map id (· ++ rest)) := by
  obtain ⟨htake, hdrop⟩ := digits_append t hrest
  unfold exponentDigits
  simp only [htake, hdrop]
  split_ifs <;> rfl

theorem exponent_append (t : List UInt8) {rest : List UInt8} (hrest : Separates rest) :
    exponent (t ++ rest) = (exponent t).map (Prod.map id (· ++ rest)) := by
  match t with
  | [] =>
    cases rest with
    | nil => rfl
    | cons b rest => rcases hrest b rfl with rfl | rfl <;> rfl
  | [c] =>
    simp only [exponent, List.cons_append, List.nil_append]
    split_ifs
    · cases rest with
      | nil => rfl
      | cons b rest => rcases hrest b rfl with rfl | rfl <;> rfl
    · rfl
  | c :: d :: t =>
    simp only [exponent, List.cons_append]
    split_ifs
    · exact exponentDigits_append true t hrest
    · exact exponentDigits_append false t hrest
    · exact exponentDigits_append false (d :: t) hrest
    · rfl

theorem decimal_append (whole fraction t : List UInt8) {rest : List UInt8} (hrest : Separates rest) :
    decimal whole fraction (t ++ rest) = (decimal whole fraction t).map (Prod.map id (· ++ rest)) := by
  cases t with
  | nil =>
    cases rest with
    | nil => rfl
    | cons b rest => rcases hrest b rfl with rfl | rfl <;> rfl
  | cons c t =>
    simp only [decimal, List.cons_append]
    split_ifs
    · rw [← List.cons_append, exponent_append _ hrest, Option.map_map, Option.map_map]
      rfl
    · rfl

theorem fractional_append (whole t : List UInt8) {rest : List UInt8} (hrest : Separates rest) :
    fractional whole (t ++ rest) = (fractional whole t).map (Prod.map id (· ++ rest)) := by
  obtain ⟨htake, hdrop⟩ := digits_append t hrest
  unfold fractional
  simp only [htake, hdrop]
  split_ifs
  · rfl
  · exact decimal_append _ _ _ hrest

/-- The first byte of a text and a separator. -/
theorem head?_append_separates {t rest : List UInt8} (hrest : Separates rest) {p : UInt8 → Bool}
    (hcomma : p comma = false) (hspace : p 32 = false) : (t ++ rest).head?.any p = t.head?.any p := by
  cases t with
  | nil =>
    cases rest with
    | nil => rfl
    | cons b rest => rcases hrest b rfl with rfl | rfl <;> simp [hcomma, hspace]
  | cons c t => rfl

theorem integer_append (whole t : List UInt8) {rest : List UInt8} (hrest : Separates rest) :
    integer whole (t ++ rest) = (integer whole t).map (Prod.map id (· ++ rest)) := by
  unfold integer
  rw [exponent_append t hrest, head?_append_separates hrest (by decide) (by decide)]
  cases exponent t with
  | none =>
    simp only [Option.map_none]
    split_ifs <;> rfl
  | some e => rfl

/-- **A number** does not depend on what follows the separator behind it. -/
theorem numeral_append (t : List UInt8) {rest : List UInt8} (hrest : Separates rest) :
    numeral (t ++ rest) = (numeral t).map (Prod.map id (· ++ rest)) := by
  obtain ⟨htake, hdrop⟩ := digits_append t hrest
  unfold numeral
  simp only [htake, hdrop]
  generalize t.takeWhile isDigit = whole
  cases t.dropWhile isDigit with
  | nil =>
    -- A separator is no point.
    have hhead : ¬ rest.head? = some point := by
      intro hhead
      rcases hrest point hhead with h | h <;> exact absurd h (by decide)
    rw [List.nil_append, if_neg hhead, if_neg (show ¬ ([] : List UInt8).head? = some point by simp)]
    by_cases hwhole : whole = []
    · rw [if_pos hwhole, if_pos hwhole]
      rfl
    · rw [if_neg hwhole, if_neg hwhole]
      exact integer_append whole [] hrest
  | cons c t =>
    have hhead : (c :: t ++ rest).head? = (c :: t).head? := rfl
    by_cases hpoint : (c :: t).head? = some point
    · rw [if_pos (hhead.trans hpoint), if_pos hpoint]
      exact fractional_append whole t hrest
    · rw [if_neg (hhead ▸ hpoint), if_neg hpoint]
      by_cases hwhole : whole = []
      · rw [if_pos hwhole, if_pos hwhole]
        rfl
      · rw [if_neg hwhole, if_neg hwhole]
        exact integer_append whole (c :: t) hrest

theorem number_append {t : List UInt8} (ht : t ≠ []) {rest : List UInt8} (hrest : Separates rest) :
    number (t ++ rest) = (number t).map (Prod.map id (· ++ rest)) := by
  obtain ⟨c, t, rfl⟩ := List.exists_cons_of_ne_nil ht
  simp only [number, List.cons_append]
  split_ifs
  · rw [numeral_append t hrest, Option.map_map, Option.map_map]
    rfl
  · exact numeral_append t hrest
  · exact numeral_append (c :: t) hrest

/-! ### What is left of a number -/

theorem exponentDigits_suffix {negative : Bool} {t rest : List UInt8} {exp : ℤ}
    (h : exponentDigits negative t = some (exp, rest)) : rest <:+ t := by
  unfold exponentDigits at h
  dsimp only at h
  split_ifs at h
  all_goals
    obtain ⟨-, rfl⟩ := Prod.mk.inj (Option.some.inj h)
    exact List.dropWhile_suffix isDigit

theorem exponent_suffix {t rest : List UInt8} {exp : ℤ} (h : exponent t = some (exp, rest)) : rest <:+ t := by
  match t with
  | [] => cases h
  | [c] =>
    simp only [exponent] at h
    split_ifs at h
  | c :: d :: t =>
    simp only [exponent] at h
    split_ifs at h
    · exact (exponentDigits_suffix h).trans ((List.suffix_cons d t).trans (List.suffix_cons c _))
    · exact (exponentDigits_suffix h).trans ((List.suffix_cons d t).trans (List.suffix_cons c _))
    · exact (exponentDigits_suffix h).trans (List.suffix_cons c _)

theorem decimal_suffix {whole fraction t rest : List UInt8} {q : ℚ}
    (h : decimal whole fraction t = some (q, rest)) : rest <:+ t := by
  cases t with
  | nil =>
    obtain ⟨-, rfl⟩ := Prod.mk.inj (Option.some.inj h)
    exact List.suffix_rfl
  | cons c t =>
    simp only [decimal] at h
    split_ifs at h
    · obtain ⟨exp, hexp, -⟩ := exists_of_map h
      exact exponent_suffix hexp
    · obtain ⟨-, rfl⟩ := Prod.mk.inj (Option.some.inj h)
      exact List.suffix_rfl

theorem fractional_suffix {whole t rest : List UInt8} {q : ℚ} (h : fractional whole t = some (q, rest)) :
    rest <:+ t := by
  unfold fractional at h
  dsimp only at h
  split_ifs at h
  exact (decimal_suffix h).trans (List.dropWhile_suffix isDigit)

theorem integer_suffix {whole t rest : List UInt8} {q : ℚ} (h : integer whole t = some (q, rest)) : rest <:+ t := by
  unfold integer at h
  cases hexp : exponent t with
  | none =>
    simp only [hexp] at h
    split_ifs at h
    obtain ⟨-, rfl⟩ := Prod.mk.inj (Option.some.inj h)
    exact List.suffix_rfl
  | some e =>
    simp only [hexp] at h
    obtain ⟨-, rfl⟩ := Prod.mk.inj (Option.some.inj h)
    exact exponent_suffix hexp

theorem numeral_suffix {t rest : List UInt8} {q : ℚ} (h : numeral t = some (q, rest)) : rest <:+ t := by
  have hdrop : t.dropWhile isDigit <:+ t := List.dropWhile_suffix isDigit
  unfold numeral at h
  dsimp only at h
  split_ifs at h
  · exact (fractional_suffix h).trans ((List.tail_suffix _).trans hdrop)
  · exact (integer_suffix h).trans hdrop

theorem number_suffix {t rest : List UInt8} {q : ℚ} (h : number t = some (q, rest)) : rest <:+ t := by
  cases t with
  | nil => cases h
  | cons c t =>
    simp only [number] at h
    split_ifs at h
    · obtain ⟨q', hnumeral, -⟩ := exists_of_map h
      exact (numeral_suffix hnumeral).trans (List.suffix_cons c t)
    · exact (numeral_suffix h).trans (List.suffix_cons c t)
    · exact numeral_suffix h

/-- How a number begins. -/
theorem number_head {c : UInt8} {t rest : List UInt8} {q : ℚ} (h : number (c :: t) = some (q, rest)) :
    isDigit c ∨ c = point ∨ c = minus ∨ c = plus := by
  simp only [number] at h
  split_ifs at h with hminus hplus
  · exact .inr (.inr (.inl hminus))
  · exact .inr (.inr (.inr hplus))
  · cases hdigit : isDigit c with
    | true => exact .inl rfl
    | false =>
      unfold numeral at h
      simp only [List.takeWhile_cons, List.dropWhile_cons, hdigit, Bool.false_eq_true, if_false, List.head?_cons,
        Option.some.injEq, if_true] at h
      split_ifs at h with hpoint
      · exact .inr (.inl hpoint)

/-! ### The parts of a clause -/

/-- A byte of a number's text, of which letters are only looked at as such. -/
def isNumberByte (b : UInt8) : Bool :=
  isDigit b || (65 ≤ b && b ≤ 90) || (97 ≤ b && b ≤ 122) || b == point || b == plus || b == minus

/-- No separator, no quote and no end of a C string. -/
theorem isNumberByte_spec {b : UInt8} (h : isNumberByte b) :
    isSpace b = false ∧ b ≠ comma ∧ b ≠ quote ∧ b ≠ doubleQuote ∧ b ≠ 0 := by
  unfold isNumberByte isDigit at h
  unfold isSpace
  refine ⟨?_, ?_, ?_, ?_, ?_⟩ <;> grind

theorem isIdent_spec {b : UInt8} (h : isIdent b) : isSpace b = false ∧ b ≠ 0 := by
  unfold isIdent isDigit at h
  unfold isSpace
  grind

theorem IsName.not_mem_zero {name : List UInt8} (h : IsName name) : 0 ∉ name := fun hmem =>
  (isIdent_spec (h.2 0 hmem)).2 rfl

theorem skipSpace_cons {b : UInt8} (hb : isSpace b = false) (input : List UInt8) :
    skipSpace (b :: input) = b :: input := by
  unfold skipSpace
  rw [List.dropWhile_cons, hb]
  rfl

theorem symbol_cons {b : UInt8} (hb : isSpace b = false) (input : List UInt8) :
    symbol b (b :: input) = some input := by
  unfold symbol
  rw [skipSpace_cons hb]
  simp

theorem symbol_ne {b c : UInt8} (hc : isSpace c = false) (hne : c ≠ b) (input : List UInt8) :
    symbol b (c :: input) = none := by
  unfold symbol
  rw [skipSpace_cons hc]
  simp [hne]

theorem columnName_append (reserved : List UInt8 → Bool) {name : List UInt8} (hname : IsName name)
    (rest : List UInt8) :
    columnName reserved (name ++ equals :: rest) =
      if reserved name then none else some (name, equals :: rest) := by
  obtain ⟨⟨c, name', rfl, hdigit⟩, hident⟩ := hname
  have hspace := (isIdent_spec (hident c List.mem_cons_self)).1
  have htake : (c :: name' ++ equals :: rest).takeWhile isIdent = c :: name' := by
    rw [List.takeWhile_append_of_pos hident, List.takeWhile_cons, if_neg (by decide), List.append_nil]
  have hdrop : (c :: name' ++ equals :: rest).dropWhile isIdent = equals :: rest := by
    rw [List.dropWhile_append_of_pos hident, List.dropWhile_cons, if_neg (by decide)]
  unfold columnName
  rw [List.cons_append, skipSpace_cons hspace]
  rw [List.cons_append] at htake hdrop
  simp only [htake, hdrop, hdigit]
  simp

theorem literal_quote (input : List UInt8) :
    literal (quote :: input) = (quoted quote input).map (Prod.map .string id) := by
  unfold literal
  rw [skipSpace_cons (by decide)]
  rfl

theorem literal_null {rest : List UInt8} (hrest : Separates rest) :
    literal ([110, 117, 108, 108] ++ rest) = some (.null, rest) := by
  obtain ⟨htake, hdrop⟩ :=
    takeWhile_append_of_separates (p := isIdent) (by decide) (by decide) [110, 117, 108, 108] hrest
  unfold literal literalHere
  rw [List.cons_append, skipSpace_cons (by decide)]
  rw [List.cons_append] at htake hdrop
  simp only [htake, hdrop]
  rfl

/-- A word is no number and no string. -/
theorem keyword_cases {word : List UInt8} {l : Literal} (h : keyword word = some l) :
    l = .null ∨ ∃ b, l = .boolean b := by
  unfold keyword at h
  dsimp only at h
  split_ifs at h <;> obtain rfl := Option.some.inj h <;> simp

/-- The text of a number: what is read is the number at its start, and the rest of it stays. -/
theorem literal_number_iff {t rest r : List UInt8} {q : ℚ} (ht : t ≠ []) (hbytes : ∀ b ∈ t, isNumberByte b)
    (hrest : Separates rest) :
    literal (t ++ rest) = some (.number q, r) ↔ ∃ r', number t = some (q, r') ∧ r = r' ++ rest := by
  have happend := number_append ht hrest
  obtain ⟨c, t, rfl⟩ := List.exists_cons_of_ne_nil ht
  obtain ⟨hspace, -, hquote, hdouble, -⟩ := isNumberByte_spec (hbytes c List.mem_cons_self)
  unfold literal literalHere
  rw [List.cons_append, skipSpace_cons hspace]
  simp only [hquote, hdouble, or_self, if_false]
  rw [List.cons_append] at happend
  rw [happend]
  constructor
  · intro h
    split_ifs at h with hhead
    · obtain ⟨q', hnumber, heq⟩ := exists_of_map h
      obtain rfl := Literal.number.inj heq
      obtain ⟨⟨q', r'⟩, hnumber', heq'⟩ := Option.map_eq_some_iff.1 hnumber
      obtain ⟨rfl, rfl⟩ := Prod.mk.inj heq'
      exact ⟨r', hnumber', rfl⟩
    · obtain ⟨l, hl, heq⟩ := Option.map_eq_some_iff.1 h
      obtain rfl := (Prod.mk.inj heq).1
      rcases keyword_cases hl with h | ⟨b, h⟩ <;> cases h
  · rintro ⟨r', hnumber, rfl⟩
    rw [if_pos (number_head hnumber), hnumber]
    rfl

/-- A string begins with a quote. -/
theorem head_of_literal_string {input s rest : List UInt8} (h : literal input = some (.string s, rest)) :
    ∃ c input', skipSpace input = c :: input' ∧ (c = quote ∨ c = doubleQuote) := by
  unfold literal literalHere at h
  split at h
  · cases h
  · rename_i c input' heq
    refine ⟨c, input', heq, ?_⟩
    by_contra hquote
    rw [if_neg hquote] at h
    split_ifs at h
    · obtain ⟨q, -, hq⟩ := exists_of_map h
      cases hq
    · obtain ⟨l, hl, heq'⟩ := Option.map_eq_some_iff.1 h
      obtain rfl := (Prod.mk.inj heq').1
      rcases keyword_cases hl with h | ⟨b, h⟩ <;> cases h

end SqlText
