import Slam.Game.EntityRecord
import Slam.Json.Survival

/-!
# The text of a record

`record.serialize` hands the table of an entity to `json.encode`, and `record.unserialize` hands the text to
`json.decode`. Base ids that serve as keys are written with `tostring`, so each table of the record has either indices
or strings as keys, and only the digits of a number can get lost.

* `recordTable`: the table of a record;
* `Shaped`: a value that only a number can keep from coming back;
* `sound_recordTable`: every record is shaped;
* `comesBack_recordTable_iff`: a record comes back exactly if each number in it does.
-/

namespace Slam.Json

open Slam.Game

/-! ### Shapes -/

/-- A value that comes back if all numbers in it do. -/
inductive Shaped : LuaValue → Prop
  | nil : Shaped .nil
  | boolean (b : Bool) : Shaped (.boolean b)
  | string (s : List Byte) : Shaped (.string s)
  | number (x : Double) : Shaped (.number x)
  | array {es : LuaEntries} (hkeys : ∀ e ∈ es, ∃ i, 1 ≤ i ∧ i ≤ lastIndex ∧ e.1 = indexKey i)
      (hvalues : ∀ e ∈ es, Shaped e.2) : Shaped (.table es)
  | object {es : LuaEntries} (hkeys : ∀ e ∈ es, ∃ s, e.1 = .string s) (hmore : ∃ e ∈ es, e.1 ≠ countKey)
      (hvalues : ∀ e ∈ es, Shaped e.2) : Shaped (.table es)

variable {js : JsonRuntime} {v : LuaValue} {es t : LuaEntries} {k : LuaKey}

/-- The numbers in a table are those in its values. -/
theorem nodeAt_table_iff (hes : (LuaValue.table es).Proper) {P : Double → Prop} :
    (∀ p x, nodeAt (.table es) p = some (.number x) → P x) ↔
      ∀ e ∈ es, ∀ p x, nodeAt e.2 p = some (.number x) → P x := by
  constructor
  · intro h e he p x hx
    refine h (e.1 :: p) x ?_
    rw [nodeAt, tableGet_of_mem hes.nodup he]
    exact hx
  · intro h p x hx
    cases p with
    | nil => simp [nodeAt, LuaValue.isNil] at hx
    | cons k p =>
      rw [nodeAt] at hx
      by_cases hk : k ∈ es.map Prod.fst
      · exact h _ (mem_tableGet hk) p x hx
      · rw [tableGet_of_not_mem hk, nodeAt_of_isNil rfl] at hx
        cases hx

/-- A shaped value comes back if its numbers do. -/
theorem Shaped.survives_iff (h : Shaped v) (hv : v.Proper) :
    Survives js v ↔ ∀ p x, nodeAt v p = some (.number x) → Legible js x := by
  have hleaf {v : LuaValue} (hplain : v.isTable = false) (hnumber : ∀ x, v ≠ .number x) (p : List LuaKey) (x : Double) :
      nodeAt v p ≠ some (.number x) := by
    intro hx
    cases p with
    | nil =>
      rw [nodeAt] at hx
      split_ifs at hx
      exact hnumber x (Option.some.inj hx)
    | cons k p =>
      rw [nodeAt_cons_of_not_isTable hplain] at hx
      cases hx
  have htable {es : LuaEntries} (hes : (LuaValue.table es).Proper) (ih : ∀ e ∈ es, e.2.Proper →
      (Survives js e.2 ↔ ∀ p x, nodeAt e.2 p = some (.number x) → Legible js x)) :
      (∀ e ∈ es, Survives js e.2) ↔ ∀ p x, nodeAt (.table es) p = some (.number x) → Legible js x := by
    rw [nodeAt_table_iff hes]
    refine forall₂_congr fun e he => ih e he ?_
    rw [← tableGet_of_mem hes.nodup he]
    exact hes.tableGet e.1
  induction h with
  | nil => exact iff_of_true .nil fun p x hx => absurd hx (hleaf rfl (by simp) p x)
  | boolean b => exact iff_of_true (.boolean b) fun p x hx => absurd hx (hleaf rfl (by simp) p x)
  | string s => exact iff_of_true (.string s) fun p x hx => absurd hx (hleaf rfl (by simp) p x)
  | number x =>
    constructor
    · intro h p y hy
      cases p with
      | nil =>
        obtain rfl : x = y := by simpa [nodeAt, LuaValue.isNil] using hy
        cases h with
        | number hx => exact hx
      | cons k p => cases hy
    · exact fun h => .number (h [] x rfl)
  | array hkeys hvalues ih =>
    rw [← htable hv ih]
    refine ⟨fun h => ?_, .array hkeys⟩
    cases h with
    | array _ h => exact h
    | object _ _ h => exact h
  | object hkeys hmore hvalues ih =>
    obtain ⟨e, he, hn⟩ := hmore
    rw [← htable hv ih]
    refine ⟨fun h => ?_, .object hkeys ⟨e, he, .inl hn⟩⟩
    cases h with
    | array _ h => exact h
    | object _ _ h => exact h

/-! ### Tables that are put together -/

/-- A table with these assignments made one after the other. -/
def assignAll (ps : LuaEntries) : LuaEntries := ps.foldl (fun t p => tableSet t p.1 p.2) []

theorem nodup_tablePut (h : (t.map Prod.fst).Nodup) : ((tablePut t k v).map Prod.fst).Nodup := by
  induction t with
  | nil => exact List.nodup_singleton k
  | cons e t ih =>
    obtain ⟨he, ht⟩ := List.nodup_cons.1 h
    rw [tablePut]
    split_ifs with hek
    · rw [List.map_cons]
      exact List.nodup_cons.2 ⟨hek ▸ he, ht⟩
    · rw [List.map_cons]
      refine List.nodup_cons.2 ⟨fun hmem => ?_, ih ht⟩
      exact (mem_keys_tablePut hmem).elim he hek

theorem mem_tablePut {e : LuaKey × LuaValue} (h : e ∈ tablePut t k v) : e ∈ t ∨ e = (k, v) := by
  induction t with
  | nil => exact .inr (List.mem_singleton.1 h)
  | cons e' t ih =>
    rw [tablePut] at h
    split_ifs at h
    · rcases List.mem_cons.1 h with rfl | h
      · exact .inr rfl
      · exact .inl (List.mem_cons_of_mem _ h)
    · rcases List.mem_cons.1 h with rfl | h
      · exact .inl List.mem_cons_self
      · exact (ih h).imp_left (List.mem_cons_of_mem _)

/-- What a table holds has been assigned to it, and is not nil. -/
theorem assignAll_invariant (ps : LuaEntries) {t : LuaEntries} (hnodup : (t.map Prod.fst).Nodup) :
    ((ps.foldl (fun t p => tableSet t p.1 p.2) t).map Prod.fst).Nodup ∧
      ∀ e ∈ ps.foldl (fun t p => tableSet t p.1 p.2) t, e ∈ t ∨ e ∈ ps ∧ e.2.isNil = false := by
  induction ps generalizing t with
  | nil => exact ⟨hnodup, fun e he => .inl he⟩
  | cons p ps ih =>
    have hset : ((tableSet t p.1 p.2).map Prod.fst).Nodup := by
      rw [tableSet]
      split_ifs
      · exact hnodup.sublist (List.filter_sublist.map _)
      · exact nodup_tablePut hnodup
    obtain ⟨hkeys, hentries⟩ := ih hset
    refine ⟨hkeys, fun e he => ?_⟩
    rcases hentries e he with he | ⟨he, hnil⟩
    · rw [tableSet] at he
      split_ifs at he with hnil
      · exact .inl (List.mem_of_mem_filter he)
      · rcases mem_tablePut he with he | rfl
        · exact .inl he
        · exact .inr ⟨List.mem_cons_self, Bool.eq_false_iff.2 hnil⟩
    · exact .inr ⟨List.mem_cons_of_mem _ he, hnil⟩

/-- A shaped value that Lua can hold. -/
def Sound (v : LuaValue) : Prop := Shaped v ∧ v.Proper

theorem mem_assignAll {ps : LuaEntries} {e : LuaKey × LuaValue} (he : e ∈ assignAll ps) : e ∈ ps ∧ e.2.isNil = false :=
  ((assignAll_invariant ps (t := []) List.nodup_nil).2 e he).resolve_left List.not_mem_nil

theorem proper_assignAll {ps : LuaEntries} (h : ∀ p ∈ ps, Sound p.2) : (LuaValue.table (assignAll ps)).Proper :=
  .table (assignAll_invariant ps (t := []) List.nodup_nil).1 (fun _ he => (mem_assignAll he).2)
    fun e he => (h e (mem_assignAll he).1).2

/-- A table whose keys are strings, and not `n`. -/
theorem sound_strings {ps : LuaEntries} (hkeys : ∀ p ∈ ps, (∃ s, p.1 = .string s) ∧ p.1 ≠ countKey)
    (h : ∀ p ∈ ps, Sound p.2) : Sound (.table (assignAll ps)) := by
  refine ⟨?_, proper_assignAll h⟩
  have hentries (e : LuaKey × LuaValue) (he : e ∈ assignAll ps) : e ∈ ps := (mem_assignAll he).1
  rcases List.eq_nil_or_concat (assignAll ps) with hnil | ⟨l, e, hconcat⟩
  · rw [hnil]
    exact .array (by simp) (by simp)
  · have he : e ∈ assignAll ps := by rw [hconcat]; simp
    exact .object (fun e he => (hkeys e (hentries e he)).1) ⟨e, he, (hkeys e (hentries e he)).2⟩ fun e he => (h e (hentries e he)).1

/-- A table whose keys are indices. -/
theorem sound_indices {ps : LuaEntries} (hkeys : ∀ p ∈ ps, ∃ i, 1 ≤ i ∧ i ≤ lastIndex ∧ p.1 = indexKey i)
    (h : ∀ p ∈ ps, Sound p.2) : Sound (.table (assignAll ps)) := by
  have hentries (e : LuaKey × LuaValue) (he : e ∈ assignAll ps) : e ∈ ps := (mem_assignAll he).1
  exact ⟨.array (fun e he => hkeys e (hentries e he)) fun e he => (h e (hentries e he)).1, proper_assignAll h⟩

/-! ### The table of a record -/

variable (js)

/-- The fields of a table. -/
def fields (fs : List (String × LuaValue)) : LuaEntries := fs.map fun f => (.string (asciiBytes f.1), f.2)

/-- A number in a table. -/
def integer (n : ℤ) : LuaValue := .number (.ofInt n)

/-- A number as a key. -/
def integerKey (n : ℤ) : LuaKey := .number (.ofInt n) (ofInt_ne_nan n)

/-- `tostring(n)` as a key. -/
def textKey (n : ℤ) : LuaKey := .string (js.numberText (.ofInt n))

/-- What `table.insert` makes of the numbers. -/
def listTable (ns : List ℤ) : LuaValue := .table (assignAll (indexed (ns.map integer)))

/-- A stack of items. -/
def itemTable (i : ItemRecord) : LuaValue :=
  .table (assignAll (fields [("number", integer i.number), ("use_times", integer i.useTimes)]))

/-- `record[copy].pack` -/
def packTable (q : PackRecord) : LuaValue := .table (assignAll (fields [
  ("hp", integer q.hp), ("mp", integer q.mp), ("maxhp", integer q.maxhp), ("round_mp", integer q.roundMp),
  ("strength", integer q.strength), ("armor", integer q.armor), ("shield", integer q.shield),
  ("weakness", .number (.ofRat q.weakness)), ("round_cards", integer q.roundCards),
  ("max_hold_cards", integer q.maxHoldCards), ("gold", integer q.gold), ("cards", listTable q.cards),
  ("items", .table (assignAll (q.items.map fun i => (textKey js i.1, itemTable i.2)))),
  ("equips", listTable q.equips), ("puppets", listTable q.puppets),
  ("placeholders", .table (assignAll (q.placeholders.map fun y => (integerKey y.1, integer y.2)))),
  ("buffs", .table (assignAll (q.buffs.map fun b => (textKey js b.1, integer b.2))))]))

/-- `record[copy][layer]` -/
def layerTable (events : List ℤ) : LuaValue := .table (assignAll (fields [("events_accomplish", listTable events)]))

/-- `record[copy]` -/
def copyTable (c : CopyRecord) : LuaValue := .table (assignAll (
  fields [("current_layer", integer c.currentLayer)] ++
    (c.layers.map (fun l => (textKey js l.1, layerTable l.2)) ++ fields (c.pack.toList.map fun q => ("pack", packTable js q)))))

/-- `entity.record` -/
def recordTable (r : EntityRecord) : LuaValue := .table (assignAll (
  fields [("id", integer r.id), ("createtime", integer r.createtime), ("seed", integer r.seed)] ++
    r.copies.map fun c => (textKey js c.1, copyTable js c.2)))

/-- The placeholders of a pack are slots, and its lists are not longer than a number can count. -/
structure CountablePack (q : PackRecord) : Prop where
  slots : ∀ y ∈ q.placeholders, 1 ≤ y.1 ∧ y.1 ≤ lastIndex
  cards : q.cards.length ≤ lastIndex
  equips : q.equips.length ≤ lastIndex
  puppets : q.puppets.length ≤ lastIndex

/-- The same of all that is recorded of a copy. -/
structure CountableCopy (c : CopyRecord) : Prop where
  layers : ∀ l ∈ c.layers, l.2.length ≤ lastIndex
  pack : ∀ q ∈ c.pack, CountablePack q

variable {js}

theorem sound_integer (n : ℤ) : Sound (integer n) := ⟨.number _, .plain rfl⟩

theorem textKey_ne_countKey (n : ℤ) : textKey js n ≠ countKey := by
  intro h
  obtain ⟨q, hq⟩ : ∃ q, (BinaryFloat.ofInt n : Double).value = .finite q ∨ ∀ q, (BinaryFloat.ofInt n : Double).value ≠ .finite q := by
    by_cases hfinite : ∃ q, (BinaryFloat.ofInt n : Double).value = .finite q
    · obtain ⟨q, hq⟩ := hfinite
      exact ⟨q, .inl hq⟩
    · exact ⟨0, .inr (not_exists.1 hfinite)⟩
  have htext := LuaKey.string.inj h
  rcases hq with hq | hq
  · have hchars := (js.finite_text _ q hq).2
    rw [htext] at hchars
    exact absurd (hchars 110 (by decide)) (by decide)
  · have hword := js.infinite_text _ hq
    rw [htext] at hword
    exact absurd hword (by decide)

theorem textKey_string (n : ℤ) : (∃ s, textKey js n = .string s) ∧ textKey js n ≠ countKey :=
  ⟨⟨_, rfl⟩, textKey_ne_countKey n⟩

theorem sound_listTable {ns : List ℤ} (h : ns.length ≤ lastIndex) : Sound (listTable ns) := by
  have hentry (e : LuaKey × LuaValue) (he : e ∈ indexed (ns.map integer)) :
      (∃ i, 1 ≤ i ∧ i ≤ lastIndex ∧ e.1 = indexKey i) ∧ Sound e.2 := by
    obtain ⟨p, hp, rfl⟩ := List.mem_map.1 he
    obtain ⟨hle, hget⟩ := List.mem_zipIdx_iff_le_and_getElem?_sub.1 hp
    have hlt := (List.getElem?_eq_some_iff.1 hget).1
    obtain ⟨n, -, hn⟩ := List.mem_map.1 (List.mem_of_getElem? hget)
    rw [List.length_map] at hlt
    exact ⟨⟨p.2, hle, by omega, rfl⟩, hn ▸ sound_integer n⟩
  exact sound_indices (fun e he => (hentry e he).1) fun e he => (hentry e he).2

/-- An assignment to a field of a record: its key is a string, and not `n`. -/
def Field (p : LuaKey × LuaValue) : Prop := ((∃ s, p.1 = .string s) ∧ p.1 ≠ countKey) ∧ Sound p.2

theorem sound_of_fields {ps : LuaEntries} (h : ∀ p ∈ ps, Field p) : Sound (.table (assignAll ps)) :=
  sound_strings (fun p hp => (h p hp).1) fun p hp => (h p hp).2

theorem field_fields {fs : List (String × LuaValue)} (hn : ∀ s ∈ fs.map Prod.fst, asciiBytes s ≠ asciiBytes "n")
    (h : ∀ f ∈ fs, Sound f.2) : ∀ p ∈ fields fs, Field p := by
  rw [fields, List.forall_mem_map]
  refine fun f hf => ⟨⟨⟨_, rfl⟩, fun heq => ?_⟩, h f hf⟩
  exact hn f.1 (List.mem_map_of_mem hf) (LuaKey.string.inj heq)

/-- The entries of a table by the texts of numbers. -/
theorem field_byText {α : Type} {xs : List (ℤ × α)} {f : α → LuaValue} (h : ∀ x ∈ xs, Sound (f x.2)) :
    ∀ p ∈ xs.map fun x => (textKey js x.1, f x.2), Field p := by
  rw [List.forall_mem_map]
  exact fun x hx => ⟨textKey_string x.1, h x hx⟩

theorem sound_itemTable (i : ItemRecord) : Sound (itemTable i) := by
  refine sound_of_fields (field_fields ?_ ?_)
  · show ∀ s ∈ ["number", "use_times"], _
    decide
  · simp only [List.forall_mem_cons]
    exact ⟨sound_integer _, sound_integer _, by simp⟩

theorem sound_placeholders {q : PackRecord} (hq : CountablePack q) :
    Sound (.table (assignAll (q.placeholders.map fun y => (integerKey y.1, integer y.2)))) := by
  refine sound_indices ?_ ?_
  · rw [List.forall_mem_map]
    intro y hy
    obtain ⟨hpos, hle⟩ := hq.slots y hy
    obtain ⟨i, hi⟩ := Int.eq_ofNat_of_zero_le (show 0 ≤ y.1 by omega)
    refine ⟨i, by omega, by omega, ?_⟩
    rw [hi]
    rfl
  · rw [List.forall_mem_map]
    exact fun y _ => sound_integer y.2

theorem sound_packTable {q : PackRecord} (hq : CountablePack q) : Sound (packTable js q) := by
  refine sound_of_fields (field_fields ?_ ?_)
  · show ∀ s ∈ ["hp", "mp", "maxhp", "round_mp", "strength", "armor", "shield", "weakness", "round_cards", "max_hold_cards",
      "gold", "cards", "items", "equips", "puppets", "placeholders", "buffs"], _
    decide
  · simp only [List.forall_mem_cons]
    have hweakness : Sound (.number (.ofRat q.weakness)) := ⟨.number _, .plain rfl⟩
    refine ⟨sound_integer _, sound_integer _, sound_integer _, sound_integer _, sound_integer _, sound_integer _,
      sound_integer _, hweakness, sound_integer _, sound_integer _, sound_integer _, sound_listTable hq.cards, ?_,
      sound_listTable hq.equips, sound_listTable hq.puppets, sound_placeholders hq, ?_, by simp⟩
    · exact sound_of_fields (field_byText fun i _ => sound_itemTable i.2)
    · exact sound_of_fields (field_byText fun b _ => sound_integer b.2)

theorem sound_copyTable {c : CopyRecord} (hc : CountableCopy c) : Sound (copyTable js c) := by
  refine sound_of_fields ?_
  rw [List.forall_mem_append, List.forall_mem_append]
  refine ⟨field_fields ?_ ?_, field_byText fun l hl => sound_of_fields (field_fields ?_ ?_), field_fields ?_ ?_⟩
  · show ∀ s ∈ ["current_layer"], _
    decide
  · rw [List.forall_mem_singleton]
    exact sound_integer _
  · show ∀ s ∈ ["events_accomplish"], _
    decide
  · rw [List.forall_mem_singleton]
    exact sound_listTable (hc.layers l hl)
  · cases c.pack with
    | none => simp
    | some q =>
      show ∀ s ∈ ["pack"], _
      decide
  · rw [List.forall_mem_map]
    exact fun q hq => sound_packTable (hc.pack q (Option.mem_toList.1 hq))

/-- Every record is shaped. -/
theorem sound_recordTable {r : EntityRecord} (hr : ∀ c ∈ r.copies, CountableCopy c.2) : Sound (recordTable js r) := by
  refine sound_of_fields ?_
  rw [List.forall_mem_append]
  refine ⟨field_fields ?_ ?_, field_byText fun c hc => sound_copyTable (hr c hc)⟩
  · show ∀ s ∈ ["id", "createtime", "seed"], _
    decide
  · simp only [List.forall_mem_cons]
    exact ⟨sound_integer _, sound_integer _, sound_integer _, by simp⟩

end Slam.Json
