import Slam.Lib.BinaryFloat
import Slam.Io.Message
import Mathlib.Data.List.TakeWhile

/-!
# Lua values as the C API shows them

Numbers of LuaJIT are doubles and strings are byte strings. A table is the list of its entries, each
key once; it is a value, since the code that is modelled fills a table before anybody else can see it
and only reads the tables it is given. Keys that are objects are known by their identity alone.

`LuaRuntime` holds what the reference manual leaves to the implementation or to the C library: how a
number is written and read as text, and in which order `lua_next` visits a table.
-/

namespace Slam

/-- `lua_Number`, and `double`. -/
abbrev Double := BinaryFloat binary64

/-- `float`. -/
abbrev Single := BinaryFloat binary32

/-- What can be a key: neither nil nor NaN. -/
inductive LuaKey
  | string (s : List Byte)
  | number (x : Double) (hx : x.value ≠ .nan)
  | boolean (b : Bool)
  | object (id : ℕ)
  deriving DecidableEq

/-- A value on the Lua stack. -/
inductive LuaValue
  | nil
  | boolean (b : Bool)
  | number (x : Double)
  | string (s : List Byte)
  | table (entries : List (LuaKey × LuaValue))
  | function (id : ℕ)
  | object (id : ℕ)

namespace LuaValue

/-- `lua_isnoneornil`, for a slot that exists. -/
def isNil : LuaValue → Bool
  | nil => true
  | _ => false

/-- `lua_istable`. -/
def isTable : LuaValue → Bool
  | table _ => true
  | _ => false

/-- `lua_isfunction`. -/
def isFunction : LuaValue → Bool
  | function _ => true
  | _ => false

/-- The value as a key. Tables never serve as keys in the code that is modelled. -/
def toKey : LuaValue → Option LuaKey
  | string s => some (.string s)
  | number x => if hx : x.value ≠ .nan then some (.number x hx) else none
  | boolean b => some (.boolean b)
  | function id => some (.object id)
  | object id => some (.object id)
  | nil => none
  | table _ => none

/-- A key as a value. -/
def ofKey : LuaKey → LuaValue
  | .string s => string s
  | .number x _ => number x
  | .boolean b => boolean b
  | .object id => object id

end LuaValue

/-! ### Tables -/

/-- The entries of a table. -/
abbrev LuaEntries := List (LuaKey × LuaValue)

/-- `lua_gettable` on a table without metatable. -/
def tableGet (es : LuaEntries) (k : LuaKey) : LuaValue := (es.lookup k).getD .nil

/-- Put a value at a key. -/
def tablePut (es : LuaEntries) (k : LuaKey) (v : LuaValue) : LuaEntries :=
  match es with
  | [] => [(k, v)]
  | e :: es => if e.1 = k then (k, v) :: es else e :: tablePut es k v

/-- `lua_settable` on a table without metatable: assigning nil removes the entry. -/
def tableSet (es : LuaEntries) (k : LuaKey) (v : LuaValue) : LuaEntries :=
  if v.isNil then es.filter fun e => e.1 ≠ k else tablePut es k v

theorem tablePut_of_not_mem {es : LuaEntries} {k : LuaKey} (h : k ∉ es.map Prod.fst)
    (v : LuaValue) : tablePut es k v = es ++ [(k, v)] := by
  induction es with
  | nil => rfl
  | cons e es ih =>
    rw [List.map_cons, List.mem_cons, not_or] at h
    rw [tablePut, if_neg (fun heq => h.1 heq.symm), ih h.2, List.cons_append]

theorem tableSet_of_not_mem {es : LuaEntries} {k : LuaKey} (h : k ∉ es.map Prod.fst)
    {v : LuaValue} (hv : v.isNil = false) : tableSet es k v = es ++ [(k, v)] := by
  rw [tableSet, hv, if_neg Bool.false_ne_true, tablePut_of_not_mem h]

theorem tableGet_cons (e : LuaKey × LuaValue) (es : LuaEntries) (k : LuaKey) :
    tableGet (e :: es) k = if k = e.1 then e.2 else tableGet es k := by
  obtain ⟨k', v⟩ := e
  by_cases hk : k = k'
  · simp [tableGet, hk]
  · rw [tableGet, List.lookup_cons, beq_false_of_ne hk, if_neg hk]
    rfl

theorem tableGet_of_mem {es : LuaEntries} (hnodup : (es.map Prod.fst).Nodup) {k : LuaKey}
    {v : LuaValue} (h : (k, v) ∈ es) : tableGet es k = v := by
  induction es with
  | nil => cases h
  | cons e es ih =>
    rw [List.map_cons, List.nodup_cons] at hnodup
    rw [tableGet_cons]
    rcases List.mem_cons.1 h with rfl | hmem
    · exact if_pos rfl
    · have hne : k ≠ e.1 := fun heq => hnodup.1 (heq ▸ List.mem_map_of_mem hmem)
      rw [if_neg hne]
      exact ih hnodup.2 hmem

/-- The entry that is read. -/
theorem mem_tableGet {es : LuaEntries} {k : LuaKey} (h : k ∈ es.map Prod.fst) : (k, tableGet es k) ∈ es := by
  induction es with
  | nil => cases h
  | cons e es ih =>
    rw [tableGet_cons]
    split_ifs with hk
    · rw [hk]
      exact List.mem_cons_self ..
    · exact List.mem_cons_of_mem _ (ih (List.mem_of_ne_of_mem hk h))

theorem tableGet_of_not_mem {es : LuaEntries} {k : LuaKey} (h : k ∉ es.map Prod.fst) : tableGet es k = .nil := by
  rw [tableGet, List.lookup_eq_none_iff.2, Option.getD_none]
  intro e he
  rw [bne_iff_ne]
  rintro rfl
  exact h (List.mem_map_of_mem he)

theorem tableGet_tablePut (es : LuaEntries) (k : LuaKey) (v : LuaValue) (k' : LuaKey) :
    tableGet (tablePut es k v) k' = if k' = k then v else tableGet es k' := by
  induction es with
  | nil => exact tableGet_cons (k, v) [] k'
  | cons e es ih =>
    rw [tablePut]
    by_cases he : e.1 = k
    · subst he
      rw [if_pos rfl, tableGet_cons, tableGet_cons]
      split_ifs <;> rfl
    · rw [if_neg he, tableGet_cons, tableGet_cons, ih]
      by_cases hk : k' = e.1
      · rw [if_pos hk, if_neg (hk ▸ he), if_pos hk]
      · rw [if_neg hk, if_neg hk]

theorem sizeOf_lt_of_mem_entries {es : LuaEntries} {k : LuaKey} {v : LuaValue} (h : (k, v) ∈ es) :
    sizeOf v < sizeOf (LuaValue.table es) := by
  have hmem := List.sizeOf_lt_of_mem h
  simp only [Prod.mk.sizeOf_spec, LuaValue.table.sizeOf_spec] at hmem ⊢
  omega

theorem sizeOf_tableGet_lt (es : LuaEntries) (k : LuaKey) : sizeOf (tableGet es k) < sizeOf (LuaValue.table es) := by
  by_cases hk : k ∈ es.map Prod.fst
  · exact sizeOf_lt_of_mem_entries (mem_tableGet hk)
  · rw [tableGet_of_not_mem hk]
    simp only [LuaValue.nil.sizeOf_spec, LuaValue.table.sizeOf_spec]
    cases es <;> simp

/-! ### Conversions -/

/-- What Lua leaves to its implementation and to the C library. -/
structure LuaRuntime where
  /-- The text that `lua_tostring` makes of a number. -/
  numberText : Double → List Byte
  /-- The number that a text denotes, if it denotes one. -/
  textNumber : List Byte → Option Double
  /-- The order in which `lua_next` visits a table. -/
  next : LuaEntries → LuaEntries
  next_perm : ∀ es, (next es).Perm es

/-- The non-negative integer that a key is. -/
def LuaKey.index? : LuaKey → Option ℕ
  | .number x _ =>
    match x.value with
    | .finite q => if 0 ≤ q ∧ q.den = 1 then some q.num.toNat else none
    | _ => none
  | _ => none

theorem LuaKey.index?_number {x : Double} {hx : x.value ≠ .nan} {n : ℕ}
    (h : x.value = .finite n) : (LuaKey.number x hx).index? = some n := by
  simp [LuaKey.index?, h]

/-- `lua_next` visits the keys that are non-negative integers in ascending order. -/
def LuaRuntime.AscendingNext (rt : LuaRuntime) : Prop :=
  ∀ es : LuaEntries, (es.map Prod.fst).Nodup →
    (rt.next es).Pairwise fun a b => ∀ i ∈ a.1.index?, ∀ j ∈ b.1.index?, i < j

theorem LuaKey.eq_of_index? {k k' : LuaKey} {i : ℕ} (h : k.index? = some i)
    (h' : k'.index? = some i) : k = k' := by
  -- A key with an index is a number, and the index determines its value.
  have hvalue : ∀ {k : LuaKey}, k.index? = some i →
      ∃ x hx, k = .number x hx ∧ x.value = .finite i := by
    intro k h
    unfold LuaKey.index? at h
    split at h
    · rename_i x hx
      refine ⟨x, hx, rfl, ?_⟩
      split at h
      · rename_i q hq
        split_ifs at h with hcond
        have hnum : q.num.toNat = i := Option.some.inj h
        have hnonneg : 0 ≤ q.num := Rat.num_nonneg.2 hcond.1
        rw [hq, ← Rat.coe_int_num_of_den_eq_one hcond.2, ← hnum]
        congr 1
        exact_mod_cast (Int.toNat_of_nonneg hnonneg).symm
      · cases h
    · cases h
  obtain ⟨x, hx, rfl, hxi⟩ := hvalue h
  obtain ⟨y, hy, rfl, hyi⟩ := hvalue h'
  have hxy : x = y := BinaryFloat.ext (hxi.trans hyi.symm)
  subst hxy
  rfl

/-- A runtime whose `lua_next` sorts: the non-negative integers come in ascending order. It converts no
text. -/
def ascendingRuntime : LuaRuntime where
  numberText _ := []
  textNumber _ := none
  next es := es.mergeSort fun a b => a.1.index?.getD 0 ≤ b.1.index?.getD 0
  next_perm es := List.mergeSort_perm es _

theorem ascendingRuntime_ascendingNext : ascendingRuntime.AscendingNext := by
  intro es hnodup
  have hsorted : (ascendingRuntime.next es).Pairwise
      fun a b => decide (a.1.index?.getD 0 ≤ b.1.index?.getD 0) = true := by
    refine List.pairwise_mergeSort ?_ ?_ es
    · intro a b c hab hbc
      simp only [decide_eq_true_eq] at hab hbc ⊢
      exact hab.trans hbc
    · intro a b
      simp only [Bool.or_eq_true, decide_eq_true_eq]
      exact le_total _ _
  have hdistinct : (ascendingRuntime.next es).Pairwise fun a b => a.1 ≠ b.1 := by
    have hperm := (ascendingRuntime.next_perm es).map Prod.fst
    exact List.pairwise_map.1 (hperm.nodup_iff.2 hnodup)
  refine (hsorted.and hdistinct).imp ?_
  rintro a b ⟨hle, hne⟩ i hi j hj
  simp only [decide_eq_true_eq, Option.mem_def.1 hi, Option.mem_def.1 hj, Option.getD_some] at hle
  refine lt_of_le_of_ne hle fun heq => hne ?_
  subst heq
  exact LuaKey.eq_of_index? hi hj

/-- The conversion `(lua_Integer) n` of a double, as x86-64 computes it: a value out of range gives
the smallest integer. -/
def doubleToInteger (x : Double) : ℤ :=
  match x.truncate with
  | none => -2 ^ 63
  | some n => if -2 ^ 63 ≤ n ∧ n < 2 ^ 63 then n else -2 ^ 63

theorem doubleToInteger_ofInt {n : ℤ} (h : |n| ≤ 2 ^ 53) :
    doubleToInteger (BinaryFloat.ofInt n) = n := by
  have hrep : binary64.Representable n := FloatFormat.representable_intCast (by decide) (by decide) h
  have hrange := abs_le.1 h
  rw [doubleToInteger, BinaryFloat.truncate_ofInt hrep]
  exact if_pos ⟨by omega, by omega⟩

/-- A C string ends at its first NUL. -/
def cstring (s : List Byte) : List Byte := s.takeWhile (· ≠ 0)

theorem cstring_of_nul_free {s : List Byte} (h : 0 ∉ s) : cstring s = s := by
  refine List.takeWhile_eq_self_iff.2 fun b hb => ?_
  have hne : b ≠ 0 := fun heq => h (heq ▸ hb)
  simpa using hne

/-- The bytes of a literal of the source. -/
def asciiBytes (s : String) : List Byte := s.toList.map fun c => UInt8.ofNat c.toNat

namespace LuaRuntime

variable (rt : LuaRuntime)

/-- `lua_tointeger`. -/
def tointeger : LuaValue → ℤ
  | .number x => doubleToInteger x
  | .string s => ((rt.textNumber s).map doubleToInteger).getD 0
  | _ => 0

/-- `lua_tonumber`. -/
def tonumber : LuaValue → Double
  | .number x => x
  | .string s => (rt.textNumber s).getD (BinaryFloat.ofInt 0)
  | _ => BinaryFloat.ofInt 0

/-- `lua_tostring`: the string, which also replaces a number on the stack; `none` is a null pointer. -/
def tostring : LuaValue → Option (List Byte)
  | .string s => some s
  | .number x => some (rt.numberText x)
  | _ => none

end LuaRuntime

/-- `lua_toboolean`. -/
def LuaValue.toboolean : LuaValue → Bool
  | .nil => false
  | .boolean b => b
  | _ => true

end Slam
