import Slam.Json.RoundTrip

/-!
# The values that come back through a text

A table comes back if its keys are all indices, or all strings; other keys become strings. A number has to be finite
and to be read as it was written, and functions never come back, `json.null` included. One object is taken for an
array and lost: the one with nothing but a key `n`, unless its value is false.

* `Survives`: these values, as an inductive predicate;
* `comesBack_iff_survives`: a value comes back, structurally equal, exactly if it is one of them.
-/

namespace Slam.Json

variable (js : JsonRuntime)

/-- The number is finite, and read as it is written. -/
def Legible (x : Double) : Prop := (∃ q, x.value = .finite q) ∧ js.load (js.numberText x) = some (.number x)

/-- A value that comes back as it was. -/
inductive Survives : LuaValue → Prop
  | nil : Survives .nil
  | boolean (b : Bool) : Survives (.boolean b)
  | string (s : List Byte) : Survives (.string s)
  | number {x : Double} (hx : Legible js x) : Survives (.number x)
  | array {es : LuaEntries} (hkeys : ∀ e ∈ es, ∃ i, 1 ≤ i ∧ i ≤ lastIndex ∧ e.1 = indexKey i)
      (hvalues : ∀ e ∈ es, Survives e.2) : Survives (.table es)
  | object {es : LuaEntries} (hkeys : ∀ e ∈ es, ∃ s, e.1 = .string s)
      (hmore : ∃ e ∈ es, e.1 ≠ countKey ∨ e.2 = .boolean false) (hvalues : ∀ e ∈ es, Survives e.2) : Survives (.table es)

/-- The value is written, and what is read of the text is structurally equal to it. -/
def ComesBack (v : LuaValue) : Prop :=
  ∃ text w, encode js v = .ok text ∧ decode js text = .ok (w, []) ∧ StructurallyEqual v w

variable {js} {v w : LuaValue} {es t : LuaEntries} {k : LuaKey}

/-- What is read is known from the value. -/
theorem comesBack_iff : ComesBack js v ↔ (∃ text, encode js v = .ok text) ∧ ∃ w, reread js v = .ok w ∧ StructurallyEqual v w := by
  have hstops : Stops [] := by simp [Stops]
  constructor
  · rintro ⟨text, w, htext, hread, hequal⟩
    have hboth := reads v text [] htext hstops
    rw [List.append_nil, hread] at hboth
    refine ⟨⟨text, htext⟩, w, ?_, hequal⟩
    cases hw : reread js v with
    | error e => simp [hw, Except.map] at hboth
    | ok w' =>
      rw [hw] at hboth
      rw [(Prod.mk.inj (Except.ok.inj hboth)).1]
  · rintro ⟨⟨text, htext⟩, w, hw, hequal⟩
    have hboth := reads v text [] htext hstops
    rw [List.append_nil, hw] at hboth
    exact ⟨text, w, htext, hboth, hequal⟩

/-! ### Indices -/

theorem indexKey_value {i : ℕ} (hi : i ≤ lastIndex) : (BinaryFloat.ofInt i : Double).value = .finite (i : ℤ) := by
  have hle : |(i : ℤ)| ≤ 2 ^ 53 := by
    rw [Nat.abs_cast]
    unfold lastIndex at hi
    omega
  exact FloatFormat.round_of_representable (FloatFormat.representable_intCast (by decide) (by decide) hle)

theorem indexKey_inj {i j : ℕ} (hi : i ≤ lastIndex) (hj : j ≤ lastIndex) (h : indexKey i = indexKey j) : i = j := by
  have hvalue := congrArg BinaryFloat.value (LuaKey.number.inj h)
  rw [indexKey_value hi, indexKey_value hj, FloatValue.finite.injEq] at hvalue
  exact_mod_cast hvalue

theorem arrayIndex_indexKey {i : ℕ} (hpos : 1 ≤ i) (hi : i ≤ lastIndex) : arrayIndex (indexKey i) = some (i : WithTop ℕ) := by
  have hone : (1 : ℚ) ≤ i := by exact_mod_cast hpos
  rw [indexKey, arrayIndex]
  simp [indexKey_value hi, hone]

/-! ### Which tables are arrays -/

/-- The entry does not keep the table from being an array. -/
def FitsArray (js : JsonRuntime) (e : LuaKey × LuaValue) : Prop := (isArrayTurn js 0 e).isSome

theorem isSome_isArrayTurn (maxIndex : WithTop ℕ) (e : LuaKey × LuaValue) :
    (isArrayTurn js maxIndex e).isSome = (isArrayTurn js 0 e).isSome := by
  unfold isArrayTurn
  cases arrayIndex e.1 with
  | some k => dsimp only; split_ifs <;> rfl
  | none => dsimp only; split_ifs <;> rfl

/-- The entries seen so far decide, and the largest index of them is known. -/
theorem foldlM_isArrayTurn (l : LuaEntries) (m : WithTop ℕ) :
    (l.foldlM (isArrayTurn js) m = none ↔ ∃ e ∈ l, ¬ FitsArray js e) ∧
    ∀ n, l.foldlM (isArrayTurn js) m = some n →
      m ≤ n ∧ (∀ e ∈ l, ∀ k ∈ arrayIndex e.1, k ≤ n) ∧ (n = m ∨ ∃ e ∈ l, arrayIndex e.1 = some n) := by
  induction l generalizing m with
  | nil =>
    refine ⟨by simp, fun n h => ?_⟩
    obtain rfl := Option.some.inj h
    simp
  | cons e l ih =>
    rw [List.foldlM_cons]
    cases hturn : isArrayTurn js m e with
    | none =>
      have hfits : ¬ FitsArray js e := by
        rw [FitsArray, ← isSome_isArrayTurn m, hturn]
        simp
      refine ⟨iff_of_true rfl ⟨e, List.mem_cons_self, hfits⟩, fun n h => by cases h⟩
    | some m' =>
      obtain ⟨ihnone, ihsome⟩ := ih m'
      have hfits : FitsArray js e := by
        rw [FitsArray, ← isSome_isArrayTurn m, hturn]
        rfl
      -- One turn takes the index of the entry, if it has one.
      have hstep : m ≤ m' ∧ (∀ k ∈ arrayIndex e.1, k ≤ m') ∧ (m' = m ∨ arrayIndex e.1 = some m') := by
        unfold isArrayTurn at hturn
        cases hk : arrayIndex e.1 with
        | some k =>
          simp only [hk] at hturn
          split_ifs at hturn
          obtain rfl := Option.some.inj hturn
          refine ⟨le_max_left m k, fun k' hk' => ?_, ?_⟩
          · obtain rfl := Option.some.inj hk'
            exact le_max_right m k
          · rcases max_choice m k with h | h
            · exact .inl h
            · exact .inr (congrArg some h.symm)
        | none =>
          simp only [hk] at hturn
          have hsame : m = m' := by
            split_ifs at hturn <;> exact Option.some.inj hturn
          exact ⟨hsame.le, by simp, .inl hsame.symm⟩
      refine ⟨?_, fun n h => ?_⟩
      · refine ihnone.trans ?_
        simp [hfits]
      · obtain ⟨hle, hall, hlast⟩ := ihsome n h
        refine ⟨hstep.1.trans hle, ?_, ?_⟩
        · rintro e' he' k hk
          rcases List.mem_cons.1 he' with rfl | he'
          · exact (hstep.2.1 k hk).trans hle
          · exact hall e' he' k hk
        · rcases hlast with rfl | ⟨e', he', hindex⟩
          · rcases hstep.2.2 with h' | h'
            · exact .inl h'
            · exact .inr ⟨e, List.mem_cons_self, h'⟩
          · exact .inr ⟨e', List.mem_cons_of_mem _ he', hindex⟩

theorem isArray_eq_none_iff : isArray js es = none ↔ ∃ e ∈ es, ¬ FitsArray js e := by
  refine (foldlM_isArrayTurn (js.next es) 0).1.trans ?_
  simp only [(js.next_perm es).mem_iff]

theorem isArray_eq_some {m : WithTop ℕ} (h : isArray js es = some m) :
    (∀ e ∈ es, ∀ k ∈ arrayIndex e.1, k ≤ m) ∧ (m = 0 ∨ ∃ e ∈ es, arrayIndex e.1 = some m) := by
  obtain ⟨-, hall, hlast⟩ := (foldlM_isArrayTurn (js.next es) 0).2 m h
  simp only [(js.next_perm es).mem_iff] at hall hlast
  exact ⟨hall, hlast⟩

/-! ### Tables that are filled -/

/-- Filling a table with new keys appends the entries whose values are not nil. -/
theorem foldl_tableSet_eq {es : LuaEntries} (h : ((t ++ es).map Prod.fst).Nodup) :
    es.foldl (fun t e => tableSet t e.1 e.2) t = t ++ es.filter fun e => !e.2.isNil := by
  induction es generalizing t with
  | nil => simp
  | cons e es ih =>
    have hnew : e.1 ∉ t.map Prod.fst := by
      rw [List.map_append, List.nodup_append'] at h
      exact fun hmem => h.2.2 hmem List.mem_cons_self
    rw [List.foldl_cons]
    cases hnil : e.2.isNil with
    | true =>
      have hsame : tableSet t e.1 e.2 = t := by
        rw [tableSet, if_pos hnil, List.filter_eq_self]
        exact fun e' he' => decide_eq_true fun heq => hnew (heq ▸ List.mem_map_of_mem he')
      have hshort : ((t ++ es).map Prod.fst).Nodup :=
        h.sublist (((List.sublist_cons_self e es).append_left t).map Prod.fst)
      rw [hsame, ih hshort, List.filter_cons_of_neg (by simp [hnil])]
    | false =>
      have hmoved : ((t ++ [(e.1, e.2)] ++ es).map Prod.fst).Nodup := by simpa using h
      rw [tableSet_of_not_mem hnew hnil, ih hmoved, List.filter_cons_of_pos (by simp [hnil]), List.append_assoc]
      rfl

/-- The entries that `fillArray` sets, one for each index. -/
def indexed (vs : List LuaValue) : LuaEntries := (vs.zipIdx 1).map fun e => (indexKey e.2, e.1)

theorem nodup_indexed {vs : List LuaValue} (hlength : vs.length ≤ lastIndex) : ((indexed vs).map Prod.fst).Nodup := by
  have hkeys : (indexed vs).map Prod.fst = (List.range' 1 vs.length).map indexKey := by
    rw [indexed, ← List.zipIdx_map_snd 1 vs, List.map_map, List.map_map]
    rfl
  rw [hkeys]
  refine List.Nodup.map_on (fun i hi j hj h => ?_) List.nodup_range'
  rw [List.mem_range'_1] at hi hj
  have hi' : i ≤ lastIndex := by omega
  have hj' : j ≤ lastIndex := by omega
  exact indexKey_inj hi' hj' h

theorem fillArray_eq {vs : List LuaValue} (hlength : vs.length ≤ lastIndex) :
    fillArray 1 [] vs = (indexed vs).filter fun e => !e.2.isNil := by
  have hnodup : (([] ++ indexed vs).map Prod.fst).Nodup := by
    rw [List.nil_append]
    exact nodup_indexed hlength
  have hfill := foldl_tableSet_eq hnodup
  rw [List.nil_append] at hfill
  rw [fillArray, ← hfill, indexed, List.foldl_map]

theorem nodup_fillArray {vs : List LuaValue} (hlength : vs.length ≤ lastIndex) : ((fillArray 1 [] vs).map Prod.fst).Nodup := by
  rw [fillArray_eq hlength]
  exact (nodup_indexed hlength).sublist (List.filter_sublist.map _)

theorem mem_fillArray {vs : List LuaValue} (hlength : vs.length ≤ lastIndex) :
    (k, w) ∈ fillArray 1 [] vs ↔ w.isNil = false ∧ ∃ i, vs[i]? = some w ∧ k = indexKey (i + 1) := by
  rw [fillArray_eq hlength, List.mem_filter, indexed, List.mem_map]
  constructor
  · rintro ⟨⟨e, he, heq⟩, hnil⟩
    obtain ⟨rfl, rfl⟩ := Prod.mk.inj heq
    obtain ⟨hle, hget⟩ := List.mem_zipIdx_iff_le_and_getElem?_sub.1 he
    refine ⟨by simpa using hnil, e.2 - 1, hget, ?_⟩
    rw [Nat.sub_add_cancel hle]
  · rintro ⟨hnil, i, hget, rfl⟩
    refine ⟨⟨(w, i + 1), List.mem_zipIdx_iff_le_and_getElem?_sub.2 ⟨by simp, by simpa using hget⟩, rfl⟩, by simp [hnil]⟩

theorem mapM_ok {α β : Type} {f : α → Except JsonError β} {l : List α} {ws : List β} (h : l.mapM f = .ok ws) :
    l.length = ws.length ∧ ∀ (i : ℕ) (a : α), l[i]? = some a → ∃ w, ws[i]? = some w ∧ f a = .ok w := by
  induction l generalizing ws with
  | nil =>
    obtain rfl := Except.ok.inj h
    simp
  | cons a l ih =>
    rw [List.mapM_cons] at h
    obtain ⟨w, hw, h⟩ := bind_eq_ok.1 h
    obtain ⟨ws, hws, h⟩ := bind_eq_ok.1 h
    obtain rfl := Except.ok.inj h
    obtain ⟨hlength, hget⟩ := ih hws
    refine ⟨congrArg (· + 1) hlength, fun i b hb => ?_⟩
    cases i with
    | zero =>
      obtain rfl := Option.some.inj hb
      exact ⟨w, rfl, hw⟩
    | succ i => exact hget i b hb

theorem exists_mapM_ok {α β : Type} {f : α → Except JsonError β} {l : List α} (h : ∀ a ∈ l, ∃ w, f a = .ok w) :
    ∃ ws, l.mapM f = .ok ws := by
  induction l with
  | nil => exact ⟨[], rfl⟩
  | cons a l ih =>
    obtain ⟨w, hw⟩ := h a List.mem_cons_self
    obtain ⟨ws, hws⟩ := ih fun b hb => h b (List.mem_cons_of_mem _ hb)
    refine ⟨w :: ws, ?_⟩
    rw [List.mapM_cons, hw]
    show (l.mapM f >>= _) = _
    rw [hws]
    rfl

/-! ### Tables that come back -/

theorem isNil_eq_of_structurallyEqual (h : StructurallyEqual v w) : v.isNil = w.isNil := by
  cases h with
  | plain h => rw [LuaValue.eq_of_rawEqual h]
  | table => rfl

theorem isEncodable_of_encode {text : List Byte} (h : encode js v = .ok text) : isEncodable js v := by
  cases v with
  | function id =>
    rw [encode] at h
    split_ifs at h with hid
    exact decide_eq_true hid
  | object id =>
    rw [encode] at h
    cases h
  | _ => rfl

theorem isEncodable_of_comesBack (h : ComesBack js v) : isEncodable js v := by
  obtain ⟨text, -, htext, -⟩ := h
  exact isEncodable_of_encode htext

theorem comesBack_nil : ComesBack js .nil := by
  rw [comesBack_iff, encode, reread]
  exact ⟨⟨_, rfl⟩, .nil, rfl, .plain rfl⟩

/-- The values that an array is written with. -/
def elements (es : LuaEntries) (n : ℕ) : List LuaValue := (List.range' 1 n).map fun i => tableGet es (indexKey i)

theorem getElem?_elements {n i : ℕ} (hi : i < n) : (elements es n)[i]? = some (tableGet es (indexKey (i + 1))) := by
  rw [elements, List.getElem?_map, List.getElem?_range' hi, Option.map_some, Nat.one_mul, Nat.add_comm]

/-- What the elements of an array have become, if all of them are written and read. -/
theorem exists_elements {n : ℕ} (hn : n ≤ lastIndex) (hm : isArray js es = some n) :
    ((∃ text, encode js (.table es) = .ok text) ∧ reread js (.table es) = .ok w) ↔
      ∃ ws : List LuaValue, w = .table (fillArray 1 [] ws) ∧ ws.length = n ∧ ∀ i < n, ∃ u, ws[i]? = some u ∧
        (∃ text, encode js (tableGet es (indexKey (i + 1))) = .ok text) ∧ reread js (tableGet es (indexKey (i + 1))) = .ok u := by
  have hmax : ¬ (lastIndex : WithTop ℕ) < n := fun h => not_lt.2 hn (WithTop.coe_lt_coe.1 h)
  have hlength : (elements es n).length = n := by simp [elements]
  have hencode : encode js (.table es) = (elements es n).mapM (encode js) >>=
      fun rval => pure (asciiBytes "[" ++ concat rval ++ asciiBytes "]") := encode_array hm hmax
  have hreread : reread js (.table es) = (elements es n).mapM (reread js) >>= fun vs => pure (.table (fillArray 1 [] vs)) :=
    reread_array hm
  rw [hencode, hreread]
  constructor
  · rintro ⟨⟨text, htext⟩, hw⟩
    obtain ⟨texts, htexts, -⟩ := bind_eq_ok.1 htext
    obtain ⟨ws, hws, hw⟩ := bind_eq_ok.1 hw
    obtain ⟨hlen, hread⟩ := mapM_ok hws
    refine ⟨ws, (Except.ok.inj hw).symm, hlen ▸ hlength, fun i hi => ?_⟩
    obtain ⟨u, hu, hreads⟩ := hread i _ (getElem?_elements hi)
    obtain ⟨text, -, hwritten⟩ := (mapM_ok htexts).2 i _ (getElem?_elements hi)
    exact ⟨u, hu, ⟨text, hwritten⟩, hreads⟩
  · rintro ⟨ws, rfl, hlen, hall⟩
    have hmem (v : LuaValue) (hv : v ∈ elements es n) : (∃ text, encode js v = .ok text) ∧ ∃ u, reread js v = .ok u := by
      obtain ⟨i, hi, hget⟩ := List.getElem_of_mem hv
      rw [hlength] at hi
      obtain ⟨u, -, htext, hu⟩ := hall i hi
      have hsame : (elements es n)[i]? = some (tableGet es (indexKey (i + 1))) := getElem?_elements hi
      rw [List.getElem?_eq_getElem (hlength.symm ▸ hi), hget, Option.some_inj] at hsame
      rw [hsame]
      exact ⟨htext, u, hu⟩
    obtain ⟨texts, htexts⟩ := exists_mapM_ok fun v hv => (hmem v hv).1
    obtain ⟨us, hus⟩ := exists_mapM_ok fun v hv => (hmem v hv).2
    -- The elements are read as the list says.
    have hsame : us = ws := by
      obtain ⟨huslen, husread⟩ := mapM_ok hus
      rw [hlength] at huslen
      refine List.ext_getElem? fun i => ?_
      by_cases hi : i < n
      · obtain ⟨u, hu, hread⟩ := husread i _ (getElem?_elements hi)
        obtain ⟨u', hu', -, hread'⟩ := hall i hi
        rw [hu, hu', Except.ok.inj (hread.symm.trans hread')]
      · rw [List.getElem?_eq_none (by omega), List.getElem?_eq_none (by omega)]
    rw [htexts, hus, hsame]
    exact ⟨⟨_, rfl⟩, rfl⟩

/-- In an array that comes back, each key is an index, and each value comes back. -/
theorem of_comesBack_array {m : WithTop ℕ} (hm : isArray js es = some m) (hes : (LuaValue.table es).Proper)
    (hback : ComesBack js (.table es)) {e : LuaKey × LuaValue} (he : e ∈ es) :
    (∃ i, 1 ≤ i ∧ i ≤ lastIndex ∧ e.1 = indexKey i) ∧ ComesBack js e.2 := by
  obtain ⟨htext, w, hw, hequal⟩ := comesBack_iff.1 hback
  have hmax : ¬ lastIndex < m := by
    intro hlt
    obtain ⟨text, htext⟩ := htext
    rw [encode, hm] at htext
    simp [hlt] at htext
  obtain ⟨n, rfl⟩ := WithTop.ne_top_iff_exists.1 (fun htop => hmax (htop ▸ WithTop.coe_lt_top _) : m ≠ ⊤)
  have hn : n ≤ lastIndex := not_lt.1 fun h => hmax (WithTop.coe_lt_coe.2 h)
  obtain ⟨ws, rfl, hlength, hread⟩ := (exists_elements hn hm).1 ⟨htext, hw⟩
  obtain ⟨hkeys, hvalues⟩ := structurallyEqual_table_iff.1 hequal
  have hkey := List.mem_map_of_mem (f := Prod.fst) he
  obtain ⟨-, i, hi, hindex⟩ := (mem_fillArray (hlength ▸ hn)).1 (mem_tableGet ((hkeys e.1).1 hkey))
  have hlt : i < n := hlength ▸ (List.getElem?_eq_some_iff.1 hi).1
  obtain ⟨u, hu, hwritten, hreads⟩ := hread i hlt
  have hvalue : tableGet es e.1 = e.2 := tableGet_of_mem hes.nodup he
  have hsame := hvalues e.1 hkey
  rw [← Option.some.inj (hu.symm.trans hi), hvalue] at hsame
  rw [← hindex, hvalue] at hwritten hreads
  exact ⟨⟨i + 1, by omega, by omega, hindex⟩, comesBack_iff.2 ⟨hwritten, u, hreads, hsame⟩⟩

/-- An array whose keys are indices comes back if its values do. -/
theorem comesBack_array {m : WithTop ℕ} (hm : isArray js es = some m) (hes : (LuaValue.table es).Proper)
    (hkeys : ∀ e ∈ es, ∃ i, 1 ≤ i ∧ i ≤ lastIndex ∧ e.1 = indexKey i) (hvalues : ∀ e ∈ es, ComesBack js e.2) :
    ComesBack js (.table es) := by
  obtain ⟨hall, hlast⟩ := isArray_eq_some hm
  -- The largest index is one of the keys.
  obtain ⟨n, hn, rfl⟩ : ∃ n, n ≤ lastIndex ∧ m = ((n : ℕ) : WithTop ℕ) := by
    rcases hlast with rfl | ⟨e, he, hindex⟩
    · exact ⟨0, Nat.zero_le _, rfl⟩
    · obtain ⟨i, hpos, hi, hkey⟩ := hkeys e he
      rw [hkey, arrayIndex_indexKey hpos hi] at hindex
      exact ⟨i, hi, (Option.some.inj hindex).symm⟩
  have hcomes (k : LuaKey) : ComesBack js (tableGet es k) := by
    by_cases hk : k ∈ es.map Prod.fst
    · exact hvalues _ (mem_tableGet hk)
    · rw [tableGet_of_not_mem hk]
      exact comesBack_nil
  choose htext u hu hequal using fun k => comesBack_iff.1 (hcomes k)
  obtain ⟨ws, hws⟩ : ∃ ws, ws = (List.range n).map fun i => u (indexKey (i + 1)) := ⟨_, rfl⟩
  have hlength : ws.length = n := by rw [hws, List.length_map, List.length_range]
  have hget (i : ℕ) (hi : i < n) : ws[i]? = some (u (indexKey (i + 1))) := by
    rw [hws, List.getElem?_map, List.getElem?_range hi, Option.map_some]
  obtain ⟨hwritten, hread⟩ := (exists_elements hn hm).2
    ⟨ws, rfl, hlength, fun i hi => ⟨u (indexKey (i + 1)), hget i hi, htext _, hu _⟩⟩
  have hmem (k : LuaKey) (hk : k ∈ es.map Prod.fst) : (k, u k) ∈ fillArray 1 [] ws := by
    obtain ⟨i, hpos, hi, hindex⟩ := hkeys _ (mem_tableGet hk)
    have hle : i ≤ n := WithTop.coe_le_coe.1 (hall _ (mem_tableGet hk) i (by rw [hindex, arrayIndex_indexKey hpos hi]; rfl))
    refine (mem_fillArray (hlength.trans_le hn)).2 ⟨?_, i - 1, ?_, ?_⟩
    · rw [← isNil_eq_of_structurallyEqual (hequal k)]
      exact hes.isNil_eq_false _ (mem_tableGet hk)
    · rw [hget (i - 1) (by omega), Nat.sub_add_cancel hpos, ← hindex]
    · rw [Nat.sub_add_cancel hpos]
      exact hindex
  refine comesBack_iff.2 ⟨hwritten, _, hread, structurallyEqual_table_iff.2 ⟨fun k => ⟨fun hk => ?_, fun hk => ?_⟩, fun k hk => ?_⟩⟩
  · exact List.mem_map_of_mem (hmem k hk)
  · -- Where the table has no value, nil has been written.
    by_contra hnot
    obtain ⟨hnil, i, hi, hindex⟩ := (mem_fillArray (hlength.trans_le hn)).1 (mem_tableGet hk)
    have hlt : i < n := hlength ▸ (List.getElem?_eq_some_iff.1 hi).1
    have hsame := isNil_eq_of_structurallyEqual (hequal k)
    rw [hget i hlt, ← hindex, Option.some_inj] at hi
    rw [tableGet_of_not_mem hnot, hi, hnil] at hsame
    cases hsame
  · rw [tableGet_of_mem (nodup_fillArray (hlength.trans_le hn)) (hmem k hk)]
    exact hequal k

theorem mem_mapM_ok {α β : Type} {f : α → Except JsonError β} {l : List α} {ws : List β} (h : l.mapM f = .ok ws) :
    (∀ a ∈ l, ∃ w ∈ ws, f a = .ok w) ∧ ∀ w ∈ ws, ∃ a ∈ l, f a = .ok w := by
  obtain ⟨hlength, hget⟩ := mapM_ok h
  constructor
  · intro a ha
    obtain ⟨i, hi⟩ := List.mem_iff_getElem?.1 ha
    obtain ⟨w, hw, hf⟩ := hget i a hi
    exact ⟨w, List.mem_of_getElem? hw, hf⟩
  · intro w hw
    obtain ⟨i, hi⟩ := List.mem_iff_getElem?.1 hw
    have hlt : i < l.length := hlength ▸ (List.getElem?_eq_some_iff.1 hi).1
    obtain ⟨w', hw', hf⟩ := hget i _ (List.getElem?_eq_getElem hlt)
    rw [hi, Option.some_inj] at hw'
    exact ⟨_, List.getElem_mem hlt, hw' ▸ hf⟩

/-- The entries of an object under their keys in the table. -/
def keyed (ps : List (List Byte × LuaValue)) : LuaEntries := ps.map fun p => (.string p.1, p.2)

/-- What is written of a table whose keys are strings. -/
theorem keyed_objectEntries (hkeys : ∀ e ∈ es, ∃ s, e.1 = .string s) :
    keyed (objectEntries js es) = (js.next es).filter fun e => isEncodable js e.2 := by
  have hnext : ∀ e ∈ js.next es, ∃ s, e.1 = .string s := fun e he => hkeys e ((js.next_perm es).mem_iff.1 he)
  rw [keyed, objectEntries]
  generalize js.next es = l at hnext ⊢
  induction l with
  | nil => rfl
  | cons e l ih =>
    obtain ⟨s, hs⟩ := hnext e List.mem_cons_self
    have hrest := ih fun e he => hnext e (List.mem_cons_of_mem _ he)
    obtain ⟨k, v⟩ := e
    obtain rfl : k = .string s := hs
    cases hv : isEncodable js v with
    | true =>
      rw [List.filterMap_cons_some (b := (s, v)) (by simp [hv, keyText]), List.map_cons, hrest, List.filter_cons_of_pos (by simp [hv])]
    | false =>
      rw [List.filterMap_cons_none (by simp [hv]), hrest, List.filter_cons_of_neg (by simp [hv])]

/-- The entries are read under the keys under which they were written. -/
theorem mem_rereadEntry {ps ws : List (List Byte × LuaValue)} (h : ps.mapM (rereadEntry js) = .ok ws) :
    ws.map Prod.fst = ps.map Prod.fst ∧ (∀ p ∈ ps, ∃ u, (p.1, u) ∈ ws ∧ reread js p.2 = .ok u) ∧
      ∀ q ∈ ws, ∃ v, (q.1, v) ∈ ps ∧ reread js v = .ok q.2 := by
  have hentry {p q : List Byte × LuaValue} (h : rereadEntry js p = .ok q) : q.1 = p.1 ∧ reread js p.2 = .ok q.2 := by
    obtain ⟨u, hu, hq⟩ := bind_eq_ok.1 h
    obtain rfl := Except.ok.inj hq
    exact ⟨rfl, hu⟩
  obtain ⟨hlength, hget⟩ := mapM_ok h
  obtain ⟨hto, hfrom⟩ := mem_mapM_ok h
  refine ⟨List.ext_getElem? fun i => ?_, fun p hp => ?_, fun q hq => ?_⟩
  · rw [List.getElem?_map, List.getElem?_map]
    cases hp : ps[i]? with
    | none =>
      rw [List.getElem?_eq_none_iff] at hp
      rw [List.getElem?_eq_none (hlength ▸ hp)]
    | some p =>
      obtain ⟨q, hq, hread⟩ := hget i p hp
      rw [hq, Option.map_some, Option.map_some, (hentry hread).1]
  · obtain ⟨q, hq, hread⟩ := hto p hp
    obtain ⟨hkey, hvalue⟩ := hentry hread
    exact ⟨q.2, hkey ▸ hq, hvalue⟩
  · obtain ⟨p, hp, hread⟩ := hfrom q hq
    obtain ⟨hkey, hvalue⟩ := hentry hread
    exact ⟨p.2, hkey ▸ hp, hvalue⟩

theorem mem_keys_tablePut {k' : LuaKey} (h : k ∈ (tablePut t k' v).map Prod.fst) : k ∈ t.map Prod.fst ∨ k = k' := by
  induction t with
  | nil => exact .inr (List.mem_singleton.1 h)
  | cons e t ih =>
    rw [tablePut] at h
    split_ifs at h with he
    · rcases List.mem_cons.1 h with rfl | h
      · exact .inr rfl
      · exact .inl (List.mem_cons_of_mem _ h)
    · rcases List.mem_cons.1 h with rfl | h
      · exact .inl List.mem_cons_self
      · exact (ih h).imp_left (List.mem_cons_of_mem _)

/-- All keys of an object that has been read are strings. -/
theorem exists_string_of_mem_fillObject {ws : List (List Byte × LuaValue)} (ht : ∀ k ∈ t.map Prod.fst, ∃ s, k = .string s) :
    ∀ k ∈ (fillObject t ws).map Prod.fst, ∃ s, k = .string s := by
  induction ws generalizing t with
  | nil => exact ht
  | cons p ws ih =>
    refine ih fun k hk => ?_
    change k ∈ (tableSet t (.string p.1) p.2).map Prod.fst at hk
    rw [tableSet] at hk
    split_ifs at hk
    · exact ht k ((List.filter_sublist.map _).subset hk)
    · rcases mem_keys_tablePut hk with hk | rfl
      · exact ht k hk
      · exact ⟨p.1, rfl⟩

/-- An object with distinct keys has the entries that were read, apart from nil. -/
theorem fillObject_eq {ws : List (List Byte × LuaValue)} (h : ((keyed ws).map Prod.fst).Nodup) :
    fillObject [] ws = (keyed ws).filter fun e => !e.2.isNil := by
  have hnodup : (([] ++ keyed ws).map Prod.fst).Nodup := by
    rw [List.nil_append]
    exact h
  have hfill := foldl_tableSet_eq hnodup
  rw [List.nil_append] at hfill
  rw [fillObject, ← hfill, keyed, List.foldl_map]

theorem nodup_keyed (hes : (LuaValue.table es).Proper) (hkeys : ∀ e ∈ es, ∃ s, e.1 = .string s)
    {ws : List (List Byte × LuaValue)} (hws : ws.map Prod.fst = (objectEntries js es).map Prod.fst) :
    ((keyed ws).map Prod.fst).Nodup := by
  have hsame : (keyed ws).map Prod.fst = (keyed (objectEntries js es)).map Prod.fst := by
    have hfst (ps : List (List Byte × LuaValue)) : (keyed ps).map Prod.fst = (ps.map Prod.fst).map LuaKey.string := by
      rw [keyed, List.map_map, List.map_map]
      rfl
    rw [hfst, hfst, hws]
  rw [hsame, keyed_objectEntries hkeys]
  exact (((js.next_perm es).map Prod.fst).nodup_iff.2 hes.nodup).sublist (List.filter_sublist.map _)

theorem mem_objectEntries (hkeys : ∀ e ∈ es, ∃ s, e.1 = .string s) {s : List Byte} :
    (s, v) ∈ objectEntries js es ↔ (.string s, v) ∈ es ∧ isEncodable js v := by
  have hmem : (s, v) ∈ objectEntries js es ↔ (LuaKey.string s, v) ∈ keyed (objectEntries js es) := by
    simp [keyed]
  rw [hmem, keyed_objectEntries hkeys, List.mem_filter, (js.next_perm es).mem_iff]

/-- In an object that comes back, each key is a string, and each value comes back. -/
theorem of_comesBack_object (hm : isArray js es = none) (hes : (LuaValue.table es).Proper)
    (hback : ComesBack js (.table es)) {e : LuaKey × LuaValue} (he : e ∈ es) :
    (∃ s, e.1 = .string s) ∧ ComesBack js e.2 := by
  obtain ⟨⟨text, htext⟩, w, hw, hequal⟩ := comesBack_iff.1 hback
  rw [encode_object hm] at htext
  obtain ⟨texts, htexts, -⟩ := bind_eq_ok.1 htext
  rw [reread_object hm] at hw
  obtain ⟨ws, hws, hw⟩ := bind_eq_ok.1 hw
  obtain rfl := Except.ok.inj hw
  obtain ⟨hkeys, hvalues⟩ := structurallyEqual_table_iff.1 hequal
  have hstrings : ∀ e ∈ es, ∃ s, e.1 = .string s := fun e he =>
    exists_string_of_mem_fillObject (by simp) e.1 ((hkeys e.1).1 (List.mem_map_of_mem he))
  refine ⟨hstrings e he, ?_⟩
  obtain ⟨hsame, -, hread⟩ := mem_rereadEntry hws
  have hnodup := nodup_keyed hes hstrings hsame
  have hkey := List.mem_map_of_mem (f := Prod.fst) he
  have hfound := mem_tableGet ((hkeys e.1).1 hkey)
  have hequal := hvalues e.1 hkey
  rw [fillObject_eq hnodup] at hfound
  obtain ⟨q, hq, hqe⟩ := List.mem_map.1 (List.mem_of_mem_filter hfound)
  obtain ⟨hqkey, hqvalue⟩ := Prod.mk.inj hqe
  obtain ⟨v, hv, hreads⟩ := hread q hq
  have hvalue : tableGet es e.1 = e.2 := tableGet_of_mem hes.nodup he
  have hve : v = e.2 := by
    have hmem := ((mem_objectEntries hstrings).1 hv).1
    rw [hqkey] at hmem
    rw [← hvalue, tableGet_of_mem hes.nodup hmem]
  obtain ⟨texts', -, hwritten⟩ := (mem_mapM_ok htexts).1 _ hv
  obtain ⟨text, htext, -⟩ := bind_eq_ok.1 hwritten
  rw [hve] at hreads htext
  rw [hvalue, fillObject_eq hnodup, ← hqvalue] at hequal
  exact comesBack_iff.2 ⟨⟨text, htext⟩, q.2, hreads, hequal⟩

/-- An object whose keys are strings comes back if its values do. -/
theorem comesBack_object (hm : isArray js es = none) (hes : (LuaValue.table es).Proper)
    (hkeys : ∀ e ∈ es, ∃ s, e.1 = .string s) (hvalues : ∀ e ∈ es, ComesBack js e.2) : ComesBack js (.table es) := by
  have hvalues' (p : List Byte × LuaValue) (hp : p ∈ objectEntries js es) : ComesBack js p.2 :=
    hvalues (.string p.1, p.2) ((mem_objectEntries hkeys).1 hp).1
  obtain ⟨texts, htexts⟩ : ∃ texts, (objectEntries js es).mapM (entryText js) = .ok texts := by
    refine exists_mapM_ok fun p hp => ?_
    obtain ⟨⟨text, htext⟩, -⟩ := comesBack_iff.1 (hvalues' p hp)
    rw [entryText, htext]
    exact ⟨_, rfl⟩
  obtain ⟨ws, hws⟩ : ∃ ws, (objectEntries js es).mapM (rereadEntry js) = .ok ws := by
    refine exists_mapM_ok fun p hp => ?_
    obtain ⟨-, u, hu, -⟩ := comesBack_iff.1 (hvalues' p hp)
    rw [rereadEntry, hu]
    exact ⟨_, rfl⟩
  obtain ⟨hsame, hto, hfrom⟩ := mem_rereadEntry hws
  have hnodup := nodup_keyed hes hkeys hsame
  have hfill := fillObject_eq hnodup
  have hfilled : ((fillObject [] ws).map Prod.fst).Nodup := by
    rw [hfill]
    exact hnodup.sublist (List.filter_sublist.map _)
  -- Each entry is read under its key, as something equal.
  have hentry (e : LuaKey × LuaValue) (he : e ∈ es) : ∃ u, (e.1, u) ∈ fillObject [] ws ∧ StructurallyEqual e.2 u := by
    obtain ⟨s, hs⟩ := hkeys e he
    obtain ⟨-, u, hu, hequal⟩ := comesBack_iff.1 (hvalues e he)
    have hmem : (s, e.2) ∈ objectEntries js es := by
      rw [mem_objectEntries hkeys, ← hs]
      exact ⟨he, isEncodable_of_comesBack (hvalues e he)⟩
    obtain ⟨u', hu', hread⟩ := hto _ hmem
    obtain rfl := Except.ok.inj (hu.symm.trans hread)
    refine ⟨u, ?_, hequal⟩
    have hnil := (isNil_eq_of_structurallyEqual hequal).symm.trans (hes.isNil_eq_false e he)
    rw [hfill, List.mem_filter, hs]
    exact ⟨List.mem_map_of_mem (f := fun p : List Byte × LuaValue => (LuaKey.string p.1, p.2)) hu', by simp [hnil]⟩
  refine comesBack_iff.2 ⟨?_, .table (fillObject [] ws), ?_, structurallyEqual_table_iff.2 ⟨fun k => ⟨fun hk => ?_, fun hk => ?_⟩, fun k hk => ?_⟩⟩
  · rw [encode_object hm, htexts]
    exact ⟨_, rfl⟩
  · rw [reread_object hm, hws]
    rfl
  · obtain ⟨u, hu, -⟩ := hentry _ (mem_tableGet hk)
    exact List.mem_map_of_mem hu
  · rw [hfill] at hk
    obtain ⟨e, he, rfl⟩ := List.mem_map.1 hk
    obtain ⟨q, hq, rfl⟩ := List.mem_map.1 (List.mem_of_mem_filter he)
    obtain ⟨v, hv, -⟩ := hfrom q hq
    exact List.mem_map.2 ⟨(.string q.1, v), ((mem_objectEntries hkeys).1 hv).1, rfl⟩
  · obtain ⟨u, hu, hequal⟩ := hentry _ (mem_tableGet hk)
    rw [tableGet_of_mem hfilled hu]
    exact hequal

/-! ### The values that come back -/

theorem not_fitsArray_string {s : List Byte} : ¬ FitsArray js (.string s, v) ↔
    if LuaKey.string s = countKey then differsFromN v else isEncodable js v := by
  have hindex : arrayIndex (.string s) = none := rfl
  rw [FitsArray, isArrayTurn, hindex]
  dsimp only
  split_ifs <;> simp_all

theorem fitsArray_index {i : ℕ} (hpos : 1 ≤ i) (hi : i ≤ lastIndex) : FitsArray js (indexKey i, v) ↔ isEncodable js v := by
  rw [FitsArray, isArrayTurn, arrayIndex_indexKey hpos hi]
  dsimp only
  split_ifs <;> simp_all

/-- A value that survives is not NaN. -/
theorem Survives.differsFromN_iff (h : Survives js v) : differsFromN v ↔ v = .boolean false := by
  cases h with
  | boolean b => cases b <;> simp [differsFromN]
  | number hx =>
    obtain ⟨⟨q, hq⟩, -⟩ := hx
    simp [differsFromN, hq]
  | _ => simp [differsFromN]

theorem comesBack_number {x : Double} : ComesBack js (.number x) ↔ Survives js (.number x) := by
  rw [comesBack_iff]
  constructor
  · rintro ⟨-, w, hw, hequal⟩
    have hraw : (LuaValue.number x).rawEqual w := by
      cases hequal with
      | plain h => exact h
    obtain rfl := LuaValue.eq_of_rawEqual hraw
    rw [reread, rereadNumber] at hw
    cases hx : x.value with
    | finite q =>
      rw [hx] at hw
      refine .number ⟨⟨q, hx⟩, ?_⟩
      cases hload : js.load (js.numberText x) with
      | none => simp [hload] at hw
      | some w =>
        rw [hload] at hw
        rw [Except.ok.inj hw]
    | inf negative => simp [hx] at hw
    | nan => simp [hx] at hw
  · intro hsurvives
    cases hsurvives with
    | number hx =>
      obtain ⟨⟨q, hq⟩, hload⟩ := hx
      have hequal : x.equal x := BinaryFloat.equal_iff.2 ⟨rfl, by simp [hq]⟩
      rw [encode, reread, rereadNumber, hq, hload]
      exact ⟨⟨_, rfl⟩, _, rfl, .plain hequal⟩

/-- A table that comes back survives, when its values do. -/
theorem survives_table (hes : (LuaValue.table es).Proper) (ih : ∀ e ∈ es, ComesBack js e.2 → Survives js e.2)
    (hback : ComesBack js (.table es)) : Survives js (.table es) := by
  cases hm : isArray js es with
  | some m =>
    exact .array (fun e he => (of_comesBack_array hm hes hback he).1)
      fun e he => ih e he (of_comesBack_array hm hes hback he).2
  | none =>
    have hkeys (e : LuaKey × LuaValue) (he : e ∈ es) := (of_comesBack_object hm hes hback he).1
    have hvalues (e : LuaKey × LuaValue) (he : e ∈ es) := ih e he (of_comesBack_object hm hes hback he).2
    refine .object hkeys ?_ hvalues
    obtain ⟨e, he, hfits⟩ := isArray_eq_none_iff.1 hm
    obtain ⟨s, hs⟩ := hkeys e he
    obtain ⟨k, v⟩ := e
    obtain rfl : k = .string s := hs
    refine ⟨_, he, ?_⟩
    rw [not_fitsArray_string] at hfits
    split_ifs at hfits with hn
    · exact .inr ((hvalues _ he).differsFromN_iff.1 hfits)
    · exact .inl hn

/-- A table that survives comes back, when its values do. -/
theorem comesBack_table (hes : (LuaValue.table es).Proper) (ih : ∀ e ∈ es, Survives js e.2 → ComesBack js e.2)
    (hsurvives : Survives js (.table es)) : ComesBack js (.table es) := by
  cases hsurvives with
  | array hkeys hvalues =>
    have hback (e : LuaKey × LuaValue) (he : e ∈ es) := ih e he (hvalues e he)
    cases hm : isArray js es with
    | some m => exact comesBack_array hm hes hkeys hback
    | none =>
      obtain ⟨e, he, hfits⟩ := isArray_eq_none_iff.1 hm
      obtain ⟨i, hpos, hi, hindex⟩ := hkeys e he
      obtain ⟨k, v⟩ := e
      obtain rfl : k = indexKey i := hindex
      exact absurd ((fitsArray_index hpos hi).2 (isEncodable_of_comesBack (hback _ he))) hfits
  | object hkeys hmore hvalues =>
    have hback (e : LuaKey × LuaValue) (he : e ∈ es) := ih e he (hvalues e he)
    have hm : isArray js es = none := by
      obtain ⟨e, he, hmore⟩ := hmore
      obtain ⟨s, hs⟩ := hkeys e he
      obtain ⟨k, v⟩ := e
      obtain rfl : k = .string s := hs
      refine isArray_eq_none_iff.2 ⟨_, he, not_fitsArray_string.2 ?_⟩
      split_ifs with hn
      · exact (hvalues _ he).differsFromN_iff.2 (hmore.resolve_left (not_not_intro hn))
      · exact isEncodable_of_comesBack (hback _ he)
    exact comesBack_object hm hes hkeys hback

/-- What comes back survives. -/
theorem survives_of_comesBack (hv : v.Proper) (h : ComesBack js v) : Survives js v := by
  induction hv with
  | @table es hnodup hnil hvalues ih => exact survives_table (.table hnodup hnil hvalues) ih h
  | @plain v hplain =>
    cases v with
    | nil => exact .nil
    | boolean b => exact .boolean b
    | number x => exact comesBack_number.1 h
    | string s => exact .string s
    | table es => cases hplain
    | function id =>
      rw [comesBack_iff, reread] at h
      obtain ⟨-, w, hw, hequal⟩ := h
      obtain rfl := Except.ok.inj hw
      cases hequal with
      | plain h => exact absurd h Bool.false_ne_true
    | object id =>
      obtain ⟨text, w, htext, -⟩ := h
      rw [encode] at htext
      cases htext

/-- What survives comes back. -/
theorem comesBack_of_survives (hv : v.Proper) (h : Survives js v) : ComesBack js v := by
  induction hv with
  | @table es hnodup hnil hvalues ih => exact comesBack_table (.table hnodup hnil hvalues) ih h
  | @plain v hplain =>
    cases v with
    | nil => exact comesBack_nil
    | boolean b =>
      rw [comesBack_iff, encode, reread]
      exact ⟨⟨_, rfl⟩, _, rfl, .plain (by simp [LuaValue.rawEqual])⟩
    | number x => exact comesBack_number.2 h
    | string s =>
      rw [comesBack_iff, encode, reread]
      exact ⟨⟨_, rfl⟩, _, rfl, .plain (by simp [LuaValue.rawEqual])⟩
    | table es => cases hplain
    | function id => cases h
    | object id => cases h

/-- **A value comes back through `json.encode` and `json.decode` exactly if it survives.** -/
theorem comesBack_iff_survives (hv : v.Proper) : ComesBack js v ↔ Survives js v :=
  ⟨survives_of_comesBack hv, comesBack_of_survives hv⟩

/-! ### A runtime that writes integers -/

/-- The decimal digits of a number. -/
def decimalText (n : ℕ) : List Byte := (Nat.toDigits 10 n).map fun c => UInt8.ofNat c.toNat

/-- The number that decimal digits stand for. -/
def decimalValue (s : List Byte) : ℕ := Nat.ofDigitChars 10 (s.map fun b => Char.ofNat b.toNat) 0

/-- An integer in decimal. -/
def integerText (n : ℤ) : List Byte := if n < 0 then 45 :: decimalText n.natAbs else decimalText n.natAbs

/-- The integer that a text stands for. -/
def integerValue : List Byte → ℤ
  | 45 :: s => -decimalValue s
  | s => decimalValue s

theorem exists_digit {n : ℕ} {c : Char} (hc : c ∈ Nat.toDigits 10 n) : ∃ d < 10, c = Char.ofNat (48 + d) := by
  have hdigit := Nat.isDigit_of_mem_toDigits (by decide) (by decide) hc
  have hrange : 48 ≤ c.toNat ∧ c.toNat ≤ 57 := by simpa [Char.isDigit, UInt32.le_iff_toNat_le] using hdigit
  refine ⟨c.toNat - 48, by omega, ?_⟩
  rw [show 48 + (c.toNat - 48) = c.toNat by omega, Char.ofNat_toNat]

theorem digit_of_mem_decimalText {n : ℕ} {b : Byte} (hb : b ∈ decimalText n) : b ∈ acceptableChars ∧ b ≠ 45 := by
  obtain ⟨c, hc, rfl⟩ := List.mem_map.1 hb
  obtain ⟨d, hd, rfl⟩ := exists_digit hc
  interval_cases d <;> decide

theorem decimalText_ne_nil (n : ℕ) : decimalText n ≠ [] := by
  simp [decimalText, Nat.toDigits_ne_nil]

theorem decimalValue_decimalText (n : ℕ) : decimalValue (decimalText n) = n := by
  have hchars : ((decimalText n).map fun b => Char.ofNat b.toNat) = Nat.toDigits 10 n := by
    rw [decimalText, List.map_map]
    refine (List.map_congr_left fun c hc => ?_).trans (List.map_id _)
    obtain ⟨d, hd, rfl⟩ := exists_digit hc
    interval_cases d <;> rfl
  rw [decimalValue, hchars]
  exact Nat.ofDigitChars_ten_toDigits

/-- What is written of a number: the integer below it. -/
def plainText (x : Double) : List Byte :=
  match x.value with
  | .finite q => integerText ⌊q⌋
  | .inf negative => asciiBytes (if negative then "-inf" else "inf")
  | .nan => asciiBytes "nan"

theorem integerText_chars (n : ℤ) : integerText n ≠ [] ∧ ∀ b ∈ integerText n, b ∈ acceptableChars := by
  rw [integerText]
  split_ifs
  · refine ⟨List.cons_ne_nil _ _, ?_⟩
    rw [List.forall_mem_cons]
    exact ⟨by decide, fun b hb => (digit_of_mem_decimalText hb).1⟩
  · exact ⟨decimalText_ne_nil _, fun b hb => (digit_of_mem_decimalText hb).1⟩

theorem plainText_finite (x : Double) (q : ℚ) (hx : x.value = .finite q) :
    plainText x ≠ [] ∧ ∀ b ∈ plainText x, b ∈ acceptableChars := by
  rw [plainText, hx]
  exact integerText_chars ⌊q⌋

theorem plainText_infinite (x : Double) (hx : ∀ q, x.value ≠ .finite q) :
    plainText x ∈ [asciiBytes "inf", asciiBytes "-inf", asciiBytes "nan", asciiBytes "-nan"] := by
  rw [plainText]
  cases h : x.value with
  | finite q => exact absurd h (hx q)
  | inf negative => cases negative <;> simp
  | nan => simp

/-- The number that is read of a text. -/
def plainLoad (s : List Byte) : Option LuaValue :=
  if s = [] ∨ s = asciiBytes "-" then none else some (.number (.ofInt (integerValue s)))

theorem plainLoad_minus : plainLoad (asciiBytes "-") = none := if_pos (.inr rfl)

/-- A runtime that writes a number as the integer below it, which is all that integers need. -/
def plainJson : JsonRuntime where
  numberText := plainText
  textNumber _ := none
  next := id
  next_perm := List.Perm.refl
  null := 0
  objectText _ := none
  hexNumber _ := none
  load := plainLoad
  finite_text := plainText_finite
  infinite_text := plainText_infinite
  load_minus := plainLoad_minus

theorem integerValue_integerText (n : ℤ) : integerValue (integerText n) = n := by
  rw [integerText]
  split_ifs with hn
  · rw [integerValue, decimalValue_decimalText]
    omega
  · obtain ⟨b, s, hs⟩ := List.exists_cons_of_ne_nil (decimalText_ne_nil n.natAbs)
    have hb : b ≠ 45 := (digit_of_mem_decimalText (hs ▸ List.mem_cons_self)).2
    have hvalue : integerValue (decimalText n.natAbs) = decimalValue (decimalText n.natAbs) := by
      rw [hs, integerValue]
      rintro s' h
      exact hb (List.cons.inj h).1
    rw [hvalue, decimalValue_decimalText]
    omega

theorem integerText_ne_minus (n : ℤ) : integerText n ≠ asciiBytes "-" := by
  rw [integerText]
  split_ifs
  · exact fun h => decimalText_ne_nil _ (List.cons.inj h).2
  · intro h
    have hmem : (45 : Byte) ∈ decimalText n.natAbs := h ▸ List.mem_singleton_self 45
    exact (digit_of_mem_decimalText hmem).2 rfl

/-- There every integer is legible that a double can hold. -/
theorem legible_plainJson {n : ℤ} (hn : |n| ≤ 2 ^ 53) : Legible plainJson (.ofInt n) := by
  have hvalue : (BinaryFloat.ofInt n : Double).value = .finite n :=
    FloatFormat.round_of_representable (FloatFormat.representable_intCast (by decide) (by decide) hn)
  refine ⟨⟨n, hvalue⟩, ?_⟩
  show plainLoad (plainText (.ofInt n)) = _
  have htext : plainText (.ofInt n) = integerText n := by
    rw [plainText, hvalue]
    exact congrArg integerText (Int.floor_intCast n)
  have hminus : ¬ (integerText n = [] ∨ integerText n = asciiBytes "-") := by
    rintro (h | h)
    · exact (integerText_chars n).1 h
    · exact integerText_ne_minus n h
  rw [htext, plainLoad, if_neg hminus, integerValue_integerText]

/-- `{7, nil, false}` comes back, and `{n = 7}` does not. -/
theorem comesBack_sparse :
    ComesBack plainJson (.table [(indexKey 1, .number (.ofInt 7)), (indexKey 3, .boolean false)]) ∧
      ¬ ComesBack plainJson (.table [(countKey, .number (.ofInt 7))]) := by
  have hseven : Legible plainJson (.ofInt 7) := legible_plainJson (by norm_num)
  have hkey : indexKey 1 ≠ indexKey 3 := fun h => absurd (indexKey_inj (by decide) (by decide) h) (by decide)
  have harray : (LuaValue.table [(indexKey 1, .number (.ofInt 7)), (indexKey 3, .boolean false)]).Proper := by
    refine .table (by simpa using hkey) (by simp [LuaValue.isNil]) ?_
    simp only [List.forall_mem_cons]
    exact ⟨.plain rfl, .plain rfl, by simp⟩
  have hobject : (LuaValue.table [(countKey, .number (.ofInt 7))]).Proper :=
    .table (List.nodup_singleton _) (by simp [LuaValue.isNil]) (by simpa using .plain rfl)
  refine ⟨(comesBack_iff_survives harray).2 (.array ?_ ?_), fun h => ?_⟩
  · simp only [List.forall_mem_cons]
    exact ⟨⟨1, by decide, by decide, rfl⟩, ⟨3, by decide, by decide, rfl⟩, by simp⟩
  · simp only [List.forall_mem_cons]
    exact ⟨.number hseven, .boolean false, by simp⟩
  · cases (comesBack_iff_survives hobject).1 h with
    | array hkeys _ =>
      obtain ⟨i, -, -, hi⟩ := hkeys _ (List.mem_singleton_self _)
      cases hi
    | object _ hmore _ =>
      obtain ⟨e, he, hmore⟩ := hmore
      obtain rfl := List.mem_singleton.1 he
      exact hmore.elim (fun h => h rfl) fun h => by cases h

end Slam.Json
