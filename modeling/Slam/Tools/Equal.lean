import Slam.Lib.FloatArithmetic
import Slam.Lib.NodeMap
import Slam.Lua.Value

/-!
# `tools/tools.lua`: copies of tables and their comparison

`table.dup` copies a table with all tables in it, and `table.equal` compares two tables, but only by the keys of
the first one. The tables are finite and acyclic, of any depth, and have no metatables.

* `tableDup`, `tableEqual`: the two functions, and `resetAllfields`, which rests on both;
* `nodeAt`: the value behind a path of keys, by which tables are known;
* `tableEqual_iff`: what `table.equal` finds out, that the first table is within the second;
* `tableEqual_iff_structurallyEqual_iff`: where that is equality, and where a copy equals its original.
-/

namespace Slam

/-! ### The functions -/

/-- What `type` answers. -/
inductive LuaType
  | nil | boolean | number | string | table | function | userdata
  deriving DecidableEq

/-- `type`. -/
def LuaValue.type : LuaValue → LuaType
  | nil => .nil
  | boolean _ => .boolean
  | number _ => .number
  | string _ => .string
  | table _ => .table
  | function _ => .function
  | object _ => .userdata

/-- `==`, for values that are not tables. -/
def LuaValue.rawEqual : LuaValue → LuaValue → Bool
  | nil, nil => true
  | boolean b, boolean c => b = c
  | number x, number y => x.equal y
  | string s, string t => s = t
  | function i, function j => i = j
  | object i, object j => i = j
  | _, _ => false

/-- `table.dup(t)`. -/
def tableDup (rt : LuaRuntime) : LuaValue → LuaValue
  | .table t => .table ((rt.next t).attach.foldl (fun t_dup e => tableSet t_dup e.1.1 (tableDup rt e.1.2)) [])
  | t => t
termination_by t => sizeOf t
decreasing_by exact sizeOf_lt_of_mem_entries ((rt.next_perm t).mem_iff.1 e.2)

/-- `table.equal(t1, t2)`. -/
def tableEqual (rt : LuaRuntime) (t1 t2 : LuaValue) : Bool :=
  if t1.type ≠ t2.type then false
  else
    match t1, t2 with
    | .table t1, .table t2 => (rt.next t1).all fun e => tableEqual rt (tableGet t1 e.1) (tableGet t2 e.1)
    | t1, t2 => t1.rawEqual t2
termination_by sizeOf t1
decreasing_by exact sizeOf_tableGet_lt t1 e.1

/-- The key under which a record keeps what its table of the configuration says. -/
def baseKey : LuaKey := .string (asciiBytes "__base")

/-- `Card:reset_allfields()`, also that of the buffs and of the items: what becomes of `self.base`. It is none where
an assertion fails, and where a key is assigned to what is no table. -/
def resetAllfields (rt : LuaRuntime) (base : LuaEntries) : Option LuaEntries :=
  let __base := tableGet base baseKey
  if __base.isNil then none
  else if tableEqual rt (tableDup rt __base) __base then
    match tableDup rt __base with
    | .table t => some (tableSet t baseKey __base)
    | _ => none
  else none

/-! ### Finite tables -/

/-- A value that Lua can hold: in its tables each key stands once, and no value is nil. -/
inductive LuaValue.Proper : LuaValue → Prop
  | plain {v : LuaValue} (hv : v.isTable = false) : Proper v
  | table {es : LuaEntries} (hnodup : (es.map Prod.fst).Nodup) (hnil : ∀ e ∈ es, e.2.isNil = false)
      (hvalues : ∀ e ∈ es, Proper e.2) : Proper (.table es)

/-- A table. -/
structure LuaTable where
  entries : LuaEntries
  proper : (LuaValue.table entries).Proper

namespace LuaTable

/-- The table as a value. -/
def value (t : LuaTable) : LuaValue := .table t.entries

theorem proper_value (t : LuaTable) : t.value.Proper := t.proper

end LuaTable

/-- Structural equality: what is no table is equal for Lua, and tables have the same keys with structurally equal
values. -/
inductive StructurallyEqual : LuaValue → LuaValue → Prop
  | plain {x y : LuaValue} (h : x.rawEqual y) : StructurallyEqual x y
  | table {es es' : LuaEntries} (hkeys : ∀ k, k ∈ es.map Prod.fst ↔ k ∈ es'.map Prod.fst)
      (hvalues : ∀ k ∈ es.map Prod.fst, StructurallyEqual (tableGet es k) (tableGet es' k)) :
      StructurallyEqual (.table es) (.table es')

/-- The value behind a path of keys. -/
def nodeAt : LuaValue → List LuaKey → Option LuaValue
  | v, [] => if v.isNil then none else some v
  | .table es, k :: p => nodeAt (tableGet es k) p
  | _, _ :: _ => none

/-- Two nodes agree if both are tables, or equal for Lua. -/
def SameNode (x y : LuaValue) : Prop := x.isTable ∧ y.isTable ∨ x.rawEqual y

/-- The second table has all that is in the first one, at any depth, and something more. -/
def LuaTable.StrictlyWithin (a b : LuaTable) : Prop :=
  NodeMap.StrictlyWithin SameNode (nodeAt a.value) (nodeAt b.value)

/-- No number in the table, at any depth, is NaN. -/
def LuaTable.NaNFree (t : LuaTable) : Prop := ∀ p x, nodeAt t.value p = some (.number x) → x.value ≠ .nan

/-! ### Nodes -/

namespace LuaValue

variable {x y : LuaValue}

theorem eq_of_rawEqual (h : x.rawEqual y) : x = y := by
  cases x <;> cases y <;> simp_all [rawEqual, BinaryFloat.equal_iff]

theorem rawEqual_symm (h : x.rawEqual y) : y.rawEqual x := by
  obtain rfl := eq_of_rawEqual h
  exact h

theorem not_rawEqual_of_isTable (hx : x.isTable) : ¬ x.rawEqual y := by
  cases x <;> simp_all [rawEqual, isTable]

theorem exists_table_of_isTable (hx : x.isTable) : ∃ es, x = .table es := by
  cases x with
  | table es => exact ⟨es, rfl⟩
  | _ => simp [isTable] at hx

namespace Proper

variable {es : LuaEntries}

theorem nodup (h : (LuaValue.table es).Proper) : (es.map Prod.fst).Nodup := by
  cases h with
  | plain hv => simp [isTable] at hv
  | table hnodup _ _ => exact hnodup

theorem isNil_eq_false (h : (LuaValue.table es).Proper) : ∀ e ∈ es, e.2.isNil = false := by
  cases h with
  | plain hv => simp [isTable] at hv
  | table _ hnil _ => exact hnil

/-- The keys of a table are those with a value. -/
theorem mem_keys_iff (h : (LuaValue.table es).Proper) {k : LuaKey} :
    k ∈ es.map Prod.fst ↔ (tableGet es k).isNil = false := by
  constructor
  · exact fun hk => h.isNil_eq_false _ (mem_tableGet hk)
  · intro hvalue
    by_contra hk
    rw [tableGet_of_not_mem hk] at hvalue
    cases hvalue

theorem tableGet (h : (LuaValue.table es).Proper) (k : LuaKey) : (tableGet es k).Proper := by
  cases h with
  | plain hv => simp [isTable] at hv
  | table _ _ hvalues =>
    by_cases hk : k ∈ es.map Prod.fst
    · exact hvalues _ (mem_tableGet hk)
    · rw [tableGet_of_not_mem hk]
      exact .plain rfl

/-- Induction on the depth of a value, with the values behind all keys. -/
@[elab_as_elim]
theorem key_induction {motive : (v : LuaValue) → v.Proper → Prop}
    (plain : ∀ v (hv : v.isTable = false), motive v (.plain hv))
    (table : ∀ es (h : (LuaValue.table es).Proper), (∀ k, motive (Slam.tableGet es k) (h.tableGet k)) →
      motive (.table es) h)
    {v : LuaValue} (h : v.Proper) : motive v h := by
  induction h with
  | plain hv => exact plain _ hv
  | @table es hnodup hnil hvalues ih =>
    refine table es (.table hnodup hnil hvalues) fun k => ?_
    by_cases hk : k ∈ es.map Prod.fst
    · exact ih _ (mem_tableGet hk)
    · simp only [tableGet_of_not_mem hk]
      exact plain .nil rfl

end Proper

end LuaValue

theorem SameNode.symm {x y : LuaValue} : SameNode x y → SameNode y x := by
  rintro (⟨hx, hy⟩ | h)
  · exact .inl ⟨hy, hx⟩
  · exact .inr (LuaValue.rawEqual_symm h)

theorem SameNode.trans {x y z : LuaValue} : SameNode x y → SameNode y z → SameNode x z := by
  rintro (⟨hx, hy⟩ | hxy) (⟨hy', hz⟩ | hyz)
  · exact .inl ⟨hx, hz⟩
  · exact absurd hyz (LuaValue.not_rawEqual_of_isTable hy)
  · exact absurd (LuaValue.rawEqual_symm hxy) (LuaValue.not_rawEqual_of_isTable hy')
  · obtain rfl := LuaValue.eq_of_rawEqual hyz
    exact .inr hxy

theorem nodeAt_root {v : LuaValue} (hv : v.isNil = false) : nodeAt v [] = some v := by
  rw [nodeAt, hv, if_neg Bool.false_ne_true]

theorem nodeAt_cons_of_not_isTable {v : LuaValue} (hv : v.isTable = false) (k : LuaKey) (p : List LuaKey) :
    nodeAt v (k :: p) = none := by
  cases v with
  | table es => simp [LuaValue.isTable] at hv
  | _ => rfl

theorem nodeAt_of_isNil {v : LuaValue} (hv : v.isNil) (p : List LuaKey) : nodeAt v p = none := by
  cases v with
  | nil => cases p <;> rfl
  | _ => simp [LuaValue.isNil] at hv

theorem within_table_iff {es es' : LuaEntries} :
    NodeMap.Within SameNode (nodeAt (.table es)) (nodeAt (.table es')) ↔
      ∀ k, NodeMap.Within SameNode (nodeAt (tableGet es k)) (nodeAt (tableGet es' k)) := by
  refine NodeMap.within_iff_below.trans (and_iff_right ?_)
  intro x hx
  obtain rfl := Option.some.inj hx
  exact ⟨.table es', rfl, .inl ⟨rfl, rfl⟩⟩

theorem within_iff_rawEqual {x y : LuaValue} (hx : x.isNil = false) (hxy : ¬ (x.isTable ∧ y.isTable)) :
    NodeMap.Within SameNode (nodeAt x) (nodeAt y) ↔ x.rawEqual y := by
  constructor
  · intro h
    obtain ⟨z, hz, hsame⟩ := h [] x (nodeAt_root hx)
    rw [nodeAt] at hz
    split_ifs at hz
    obtain rfl := Option.some.inj hz
    exact hsame.resolve_left hxy
  · intro h p z hz
    have hplain : x.isTable = false := Bool.eq_false_iff.2 fun htable => LuaValue.not_rawEqual_of_isTable htable h
    obtain rfl := LuaValue.eq_of_rawEqual h
    cases p with
    | nil =>
      rw [nodeAt_root hx] at hz ⊢
      obtain rfl := Option.some.inj hz
      exact ⟨x, rfl, .inr h⟩
    | cons k p =>
      rw [nodeAt_cons_of_not_isTable hplain] at hz
      cases hz

theorem isNil_eq_false_of_within {x y : LuaValue} (h : NodeMap.Within SameNode (nodeAt x) (nodeAt y))
    (hx : x.isNil = false) : y.isNil = false := by
  obtain ⟨z, hz, -⟩ := h [] x (nodeAt_root hx)
  by_contra hy
  rw [nodeAt_of_isNil (Bool.not_eq_false _ ▸ hy)] at hz
  cases hz

/-! ### The comparison -/

theorem tableEqual_table_iff (rt : LuaRuntime) (es es' : LuaEntries) :
    tableEqual rt (.table es) (.table es') ↔
      ∀ k ∈ es.map Prod.fst, tableEqual rt (tableGet es k) (tableGet es' k) := by
  have htype : (LuaValue.table es).type = (LuaValue.table es').type := rfl
  rw [tableEqual, if_neg (not_not_intro htype), List.all_eq_true, List.forall_mem_map]
  exact forall_congr' fun e => imp_congr_left (rt.next_perm es).mem_iff

theorem tableEqual_iff_rawEqual (rt : LuaRuntime) {x y : LuaValue} (hxy : ¬ (x.isTable ∧ y.isTable)) :
    tableEqual rt x y ↔ x.rawEqual y := by
  have hcases : ∀ es es', x = .table es → y = .table es' → False := by
    rintro es es' rfl rfl
    exact hxy ⟨rfl, rfl⟩
  rw [tableEqual]
  · split_ifs with htype
    · exact iff_of_false not_false fun h => htype (congrArg LuaValue.type (LuaValue.eq_of_rawEqual h))
    · exact Iff.rfl
  · exact hcases

/-- `table.equal` is true if all that is in the first value is in the second one. -/
theorem tableEqual_iff (rt : LuaRuntime) {x : LuaValue} (hx : x.Proper) : ∀ y : LuaValue, x.isNil = false →
    (tableEqual rt x y ↔ NodeMap.Within SameNode (nodeAt x) (nodeAt y)) := by
  induction hx using LuaValue.Proper.key_induction with
  | plain x hx =>
    intro y hnil
    have hxy : ¬ (x.isTable ∧ y.isTable) := by simp [hx]
    rw [tableEqual_iff_rawEqual rt hxy, within_iff_rawEqual hnil hxy]
  | table es hes ih =>
    intro y hnil
    by_cases hy : y.isTable
    · obtain ⟨es', rfl⟩ := LuaValue.exists_table_of_isTable hy
      rw [tableEqual_table_iff, within_table_iff]
      refine forall_congr' fun k => ?_
      -- A key that the first table lacks is not visited, and nothing lies behind it.
      by_cases hk : k ∈ es.map Prod.fst
      · rw [imp_iff_right hk, ih k _ (hes.mem_keys_iff.1 hk)]
      · rw [tableGet_of_not_mem hk]
        exact iff_of_true (absurd · hk) (NodeMap.within_of_forall_none (nodeAt_of_isNil rfl) _)
    · have hxy : ¬ ((LuaValue.table es).isTable ∧ y.isTable) := fun h => hy h.2
      rw [tableEqual_iff_rawEqual rt hxy, within_iff_rawEqual hnil hxy]

theorem structurallyEqual_iff_rawEqual {x y : LuaValue} (hxy : ¬ (x.isTable ∧ y.isTable)) :
    StructurallyEqual x y ↔ x.rawEqual y := by
  constructor
  · intro h
    cases h with
    | plain h => exact h
    | table => exact absurd ⟨rfl, rfl⟩ hxy
  · exact .plain

theorem structurallyEqual_table_iff {es es' : LuaEntries} : StructurallyEqual (.table es) (.table es') ↔
    (∀ k, k ∈ es.map Prod.fst ↔ k ∈ es'.map Prod.fst) ∧
      ∀ k ∈ es.map Prod.fst, StructurallyEqual (tableGet es k) (tableGet es' k) := by
  constructor
  · intro h
    cases h with
    | plain h => exact absurd h (LuaValue.not_rawEqual_of_isTable rfl)
    | table hkeys hvalues => exact ⟨hkeys, hvalues⟩
  · rintro ⟨hkeys, hvalues⟩
    exact .table hkeys hvalues

/-- Values are structurally equal if all that is in one of them is in the other one, both ways. -/
theorem structurallyEqual_iff {x : LuaValue} (hx : x.Proper) : ∀ y : LuaValue, y.Proper → x.isNil = false →
    y.isNil = false → (StructurallyEqual x y ↔ NodeMap.Same SameNode (nodeAt x) (nodeAt y)) := by
  have hplain : ∀ {x y : LuaValue}, x.isNil = false → y.isNil = false → ¬ (x.isTable ∧ y.isTable) →
      (StructurallyEqual x y ↔ NodeMap.Same SameNode (nodeAt x) (nodeAt y)) := by
    intro x y hx hy hxy
    rw [structurallyEqual_iff_rawEqual hxy, NodeMap.Same, within_iff_rawEqual hx hxy,
      within_iff_rawEqual hy (fun h => hxy h.symm)]
    exact ⟨fun h => ⟨h, LuaValue.rawEqual_symm h⟩, And.left⟩
  induction hx using LuaValue.Proper.key_induction with
  | plain x hx =>
    intro y _ hxnil hynil
    exact hplain hxnil hynil (by simp [hx])
  | table es hes ih =>
    intro y hy hxnil hynil
    by_cases htable : y.isTable
    · obtain ⟨es', rfl⟩ := LuaValue.exists_table_of_isTable htable
      rw [structurallyEqual_table_iff, NodeMap.Same, within_table_iff, within_table_iff]
      constructor
      · rintro ⟨hkeys, hvalues⟩
        have hsame : ∀ k, NodeMap.Same SameNode (nodeAt (tableGet es k)) (nodeAt (tableGet es' k)) := by
          intro k
          by_cases hk : k ∈ es.map Prod.fst
          · have hk' := (hkeys k).1 hk
            exact (ih k _ (hy.tableGet k) (hes.mem_keys_iff.1 hk) (hy.mem_keys_iff.1 hk')).1 (hvalues k hk)
          · rw [tableGet_of_not_mem hk, tableGet_of_not_mem fun hk' => hk ((hkeys k).2 hk')]
            exact ⟨NodeMap.within_of_forall_none (nodeAt_of_isNil rfl) _,
              NodeMap.within_of_forall_none (nodeAt_of_isNil rfl) _⟩
        exact ⟨fun k => (hsame k).1, fun k => (hsame k).2⟩
      · rintro ⟨hxy, hyx⟩
        have hkeys : ∀ k, k ∈ es.map Prod.fst ↔ k ∈ es'.map Prod.fst := by
          intro k
          rw [hes.mem_keys_iff, hy.mem_keys_iff]
          exact ⟨isNil_eq_false_of_within (hxy k), isNil_eq_false_of_within (hyx k)⟩
        refine ⟨hkeys, fun k hk => ?_⟩
        have hk' := (hkeys k).1 hk
        exact (ih k _ (hy.tableGet k) (hes.mem_keys_iff.1 hk) (hy.mem_keys_iff.1 hk')).2 ⟨hxy k, hyx k⟩
    · exact hplain hxnil hynil fun h => htable h.2

/-! ### The copy -/

theorem tableDup_of_not_isTable (rt : LuaRuntime) {v : LuaValue} (hv : v.isTable = false) : tableDup rt v = v := by
  cases v with
  | table es => cases hv
  | _ => simp only [tableDup]

theorem isNil_tableDup (rt : LuaRuntime) (v : LuaValue) : (tableDup rt v).isNil = v.isNil := by
  cases v with
  | table es => rw [tableDup]; rfl
  | _ => simp only [tableDup]

/-- Filling a table with new keys and values that are not nil appends them. -/
theorem foldl_tableSet {f : LuaValue → LuaValue} (hf : ∀ v, (f v).isNil = v.isNil) {es : LuaEntries} :
    ∀ {t : LuaEntries}, ((t ++ es).map Prod.fst).Nodup → (∀ e ∈ es, e.2.isNil = false) →
      es.foldl (fun t e => tableSet t e.1 (f e.2)) t = t ++ es.map fun e => (e.1, f e.2) := by
  induction es with
  | nil => simp
  | cons e es ih =>
    intro t hnodup hnil
    have hnew : e.1 ∉ t.map Prod.fst := by
      rw [List.map_append, List.nodup_append'] at hnodup
      exact fun hmem => hnodup.2.2 hmem (List.mem_cons_self ..)
    have hvalue : (f e.2).isNil = false := (hf e.2).trans (hnil e (List.mem_cons_self ..))
    rw [List.foldl_cons, tableSet_of_not_mem hnew hvalue, ih, List.map_cons, List.append_assoc, List.singleton_append]
    · simpa only [List.map_append, List.map_cons, List.map_nil, List.append_assoc, List.singleton_append] using hnodup
    · exact fun e' he' => hnil e' (List.mem_cons_of_mem _ he')

theorem tableDup_table (rt : LuaRuntime) {es : LuaEntries} (h : (LuaValue.table es).Proper) :
    tableDup rt (.table es) = .table ((rt.next es).map fun e => (e.1, tableDup rt e.2)) := by
  have hperm := rt.next_perm es
  have hfold := List.foldl_attach (l := rt.next es)
    (f := fun (t : LuaEntries) e => tableSet t e.1 (tableDup rt e.2)) (b := [])
  rw [tableDup, hfold, foldl_tableSet (isNil_tableDup rt), List.nil_append]
  · rw [List.nil_append]
    exact (hperm.map Prod.fst).nodup_iff.2 h.nodup
  · exact fun e he => h.isNil_eq_false e (hperm.mem_iff.1 he)

theorem proper_tableDup (rt : LuaRuntime) {v : LuaValue} (h : v.Proper) : (tableDup rt v).Proper := by
  induction h with
  | plain hv =>
    rw [tableDup_of_not_isTable rt hv]
    exact .plain hv
  | @table es hnodup hnil hvalues ih =>
    have hperm := rt.next_perm es
    rw [tableDup_table rt (.table hnodup hnil hvalues)]
    refine .table ?_ ?_ ?_
    · rw [List.map_map]
      exact (hperm.map Prod.fst).nodup_iff.2 hnodup
    · rw [List.forall_mem_map]
      exact fun e he => (isNil_tableDup rt e.2).trans (hnil e (hperm.mem_iff.1 he))
    · rw [List.forall_mem_map]
      exact fun e he => ih e (hperm.mem_iff.1 he)

/-- A copy has copies of the values behind the same keys. -/
theorem tableGet_tableDup (rt : LuaRuntime) {es es' : LuaEntries} (h : (LuaValue.table es).Proper)
    (hdup : tableDup rt (.table es) = .table es') (k : LuaKey) : tableGet es' k = tableDup rt (tableGet es k) := by
  have hperm := rt.next_perm es
  have hproper : (LuaValue.table es').Proper := hdup ▸ proper_tableDup rt h
  rw [tableDup_table rt h, LuaValue.table.injEq] at hdup
  subst hdup
  by_cases hk : k ∈ es.map Prod.fst
  · exact tableGet_of_mem hproper.nodup (List.mem_map_of_mem (hperm.mem_iff.2 (mem_tableGet hk)))
  · rw [tableGet_of_not_mem hk, tableDup_of_not_isTable rt rfl, tableGet_of_not_mem]
    rw [List.map_map]
    exact fun hmem => hk ((hperm.map Prod.fst).mem_iff.1 hmem)

/-- A copy has the same nodes, with copies of the values. -/
theorem nodeAt_tableDup (rt : LuaRuntime) {v : LuaValue} (h : v.Proper) :
    ∀ p, nodeAt (tableDup rt v) p = (nodeAt v p).map (tableDup rt) := by
  have hroot : ∀ v, nodeAt (tableDup rt v) [] = (nodeAt v []).map (tableDup rt) := by
    intro v
    rw [nodeAt, nodeAt, isNil_tableDup]
    split_ifs <;> rfl
  induction h using LuaValue.Proper.key_induction with
  | plain v hv =>
    intro p
    cases p with
    | nil => exact hroot v
    | cons k p => rw [tableDup_of_not_isTable rt hv, nodeAt_cons_of_not_isTable hv]; rfl
  | table es hes ih =>
    intro p
    cases p with
    | nil => exact hroot (.table es)
    | cons k p =>
      have hdup := tableDup_table rt hes
      rw [hdup, nodeAt, nodeAt, tableGet_tableDup rt hes hdup, ih k]

theorem sameNode_tableDup_iff (rt : LuaRuntime) (v : LuaValue) :
    SameNode (tableDup rt v) v ↔ ∀ x, v = .number x → x.value ≠ .nan := by
  cases v with
  | table es => simp [SameNode, tableDup, LuaValue.isTable]
  | _ => simp [SameNode, tableDup, LuaValue.isTable, LuaValue.rawEqual, BinaryFloat.equal_iff]

namespace LuaTable

variable (a b c t : LuaTable)

theorem tableEqual_iff_within (rt : LuaRuntime) : tableEqual rt a.value b.value ↔
    NodeMap.Within SameNode (nodeAt a.value) (nodeAt b.value) :=
  tableEqual_iff rt a.proper_value b.value rfl

theorem structurallyEqual_iff_same : StructurallyEqual a.value b.value ↔
    NodeMap.Same SameNode (nodeAt a.value) (nodeAt b.value) :=
  structurallyEqual_iff a.proper_value b.value b.proper_value rfl rfl

/-- A copy is equal to its original if there is no NaN. -/
theorem tableEqual_tableDup_iff (rt : LuaRuntime) : tableEqual rt (tableDup rt t.value) t.value ↔ t.NaNFree := by
  rw [tableEqual_iff rt (proper_tableDup rt t.proper_value) t.value (isNil_tableDup rt _)]
  constructor
  · intro h p x hx
    have hcopy : nodeAt (tableDup rt t.value) p = some (tableDup rt (.number x)) := by
      rw [nodeAt_tableDup rt t.proper_value, hx, Option.map_some]
    obtain ⟨y, hy, hsame⟩ := h p _ hcopy
    obtain rfl := Option.some.inj (hx.symm.trans hy)
    exact (sameNode_tableDup_iff rt _).1 hsame x rfl
  · intro hnan p x hx
    rw [nodeAt_tableDup rt t.proper_value] at hx
    obtain ⟨v, hv, rfl⟩ := Option.map_eq_some_iff.1 hx
    refine ⟨v, hv, (sameNode_tableDup_iff rt v).2 ?_⟩
    rintro x rfl
    exact hnan p x hv

/-- `table.equal` finds equal what is structurally equal, and is symmetric, exactly where the second table is not the
first one with something more. It is always transitive, and a copy equals its original exactly where no number in
it is NaN. -/
theorem tableEqual_iff_structurallyEqual_iff (rt : LuaRuntime) :
    ((tableEqual rt a.value b.value ↔ StructurallyEqual a.value b.value) ↔ ¬ a.StrictlyWithin b) ∧
    ((tableEqual rt a.value b.value → tableEqual rt b.value a.value) ↔ ¬ a.StrictlyWithin b) ∧
    (tableEqual rt a.value b.value → tableEqual rt b.value c.value → tableEqual rt a.value c.value) ∧
    (tableEqual rt (tableDup rt t.value) t.value ↔ t.NaNFree) := by
  have hsymm := NodeMap.symm_iff_not_strictlyWithin (r := SameNode) (f := nodeAt a.value) (g := nodeAt b.value)
    fun x y => SameNode.symm
  rw [structurallyEqual_iff_same, tableEqual_iff_within, tableEqual_iff_within, tableEqual_iff_within,
    tableEqual_iff_within]
  refine ⟨?_, hsymm, NodeMap.Within.trans fun x y z => SameNode.trans, t.tableEqual_tableDup_iff rt⟩
  exact (iff_self_and (p := NodeMap.Within SameNode (nodeAt a.value) (nodeAt b.value))).trans hsymm

end LuaTable

/-- `{}`. -/
def emptyTable : LuaTable := ⟨[], .table List.nodup_nil (by simp) (by simp)⟩

/-- `{x = 1}`, or another number. -/
def numberTable (x : Double) : LuaTable where
  entries := [(.string (asciiBytes "x"), .number x)]
  proper := by
    refine .table (List.nodup_singleton _) ?_ ?_
    · simp [LuaValue.isNil]
    · simpa using LuaValue.Proper.plain rfl

/-- `table.equal({}, {x = 1})` is true, but the tables are not equal, and `table.equal({x = 1}, {})` is false. A copy
of `{x = 0 / 0}` is not equal to it. -/
theorem not_tableEqual_iff_structurallyEqual :
    (¬ ∀ (rt : LuaRuntime) (a b : LuaTable), tableEqual rt a.value b.value ↔ StructurallyEqual a.value b.value) ∧
    (¬ ∀ (rt : LuaRuntime) (a b : LuaTable), tableEqual rt a.value b.value → tableEqual rt b.value a.value) ∧
    ¬ ∀ (rt : LuaRuntime) (t : LuaTable), tableEqual rt (tableDup rt t.value) t.value := by
  have hkey : LuaKey.string (asciiBytes "x") ∈ (numberTable (.ofInt 1)).entries.map Prod.fst :=
    List.mem_singleton_self _
  have hequal : tableEqual ascendingRuntime emptyTable.value (numberTable (.ofInt 1)).value :=
    (tableEqual_table_iff _ _ _).2 fun k hk => absurd hk List.not_mem_nil
  refine ⟨fun h => ?_, fun h => ?_, fun h => ?_⟩
  · have hkeys := (structurallyEqual_table_iff.1 ((h _ _ _).1 hequal)).1
    exact List.not_mem_nil ((hkeys _).2 hkey)
  · have hvalue : tableEqual ascendingRuntime (.number (.ofInt 1)) .nil :=
      (tableEqual_table_iff _ _ _).1 (h _ _ _ hequal) _ hkey
    rw [tableEqual_iff_rawEqual _ (by simp [LuaValue.isTable])] at hvalue
    exact Bool.false_ne_true hvalue
  · have hnan := ((numberTable ⟨.nan, trivial⟩).tableEqual_tableDup_iff ascendingRuntime).1 (h _ _)
    exact hnan [.string (asciiBytes "x")] ⟨.nan, trivial⟩ rfl rfl

/-! ### Records -/

theorem resetAllfields_eq (rt : LuaRuntime) {base es : LuaEntries} {t : LuaTable}
    (hbase : tableGet base baseKey = t.value) (hdup : tableDup rt t.value = .table es) :
    resetAllfields rt base =
      if tableEqual rt (tableDup rt t.value) t.value then some (tableSet es baseKey t.value) else none := by
  have hnil : ¬ t.value.isNil = true := Bool.false_ne_true
  simp only [resetAllfields, hbase, if_neg hnil, hdup]

/-- The fields are reset exactly if there is no NaN among them; otherwise the assertion fails. -/
theorem isSome_resetAllfields_iff (rt : LuaRuntime) {base : LuaEntries} {t : LuaTable}
    (hbase : tableGet base baseKey = t.value) : (resetAllfields rt base).isSome ↔ t.NaNFree := by
  rw [resetAllfields_eq rt hbase (tableDup_table rt t.proper), ← t.tableEqual_tableDup_iff rt]
  split_ifs with hequal
  · exact iff_of_true rfl hequal
  · exact iff_of_false Bool.false_ne_true hequal

/-- All fields are copies then, and `__base` stays. -/
theorem tableGet_resetAllfields (rt : LuaRuntime) {base es : LuaEntries} {t : LuaTable}
    (hbase : tableGet base baseKey = t.value) (h : resetAllfields rt base = some es) (k : LuaKey) :
    tableGet es k = if k = baseKey then t.value else tableDup rt (tableGet t.entries k) := by
  have hdup := tableDup_table rt t.proper
  rw [resetAllfields_eq rt hbase hdup] at h
  split_ifs at h
  obtain rfl := Option.some.inj h
  have hnil : ¬ t.value.isNil = true := Bool.false_ne_true
  rw [tableSet, if_neg hnil, tableGet_tablePut, tableGet_tableDup rt t.proper hdup]

end Slam
