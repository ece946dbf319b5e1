import Slam.Codec.Schema
import Slam.Lua.State

/-!
# `luaT_message_parser.cpp`: from a message to a Lua table

`decodeDescriptor` fills the table on top of the stack with the fields of a message; a sub-message
becomes a table of its own, and a repeated field a table with the keys `0, 1, …`. Each `CASE_FIELD_TYPE`
family of the source is one function here, with the row of each type in `pushScalar` and `pushDefault`.

The second half says what the decoder does as a whole. `luaFields` is the table of a message, and
`decodeDescriptor_extends` that the decoder, on whatever stack, appends exactly these entries to the table
on top and returns true.
-/

namespace Slam

/-! ### The decoder -/

/-- The `METHOD(L, value)` of each scalar type. A `uint64_t` argument is converted to `lua_Integer`. -/
def pushScalar : Scalar → LuaM Unit
  | .int32 v => luaPushinteger v.toInt
  | .int64 v => luaPushinteger v.toInt
  | .uint32 v => luaPushinteger v.toNat
  | .uint64 v => luaPushinteger v.toInt
  | .double x => luaPushnumber x
  | .float x => luaPushnumber x.convert
  | .bool b => luaPushboolean b
  | .enum v => luaPushinteger v.toInt
  | .string s => luaPushstring s

/-- The `METHOD` of each type in `decodeFieldDefaultValue`. -/
def pushDefault : FieldType → LuaM Unit
  | .int32 | .int64 | .uint32 | .uint64 | .enum => luaPushinteger 0
  | .double | .float => luaPushnumber (BinaryFloat.ofInt 0)
  | .bool => luaPushboolean false
  | .string => luaPushstring []
  | .message _ => luaNewtable

/-- `decodeFieldDefaultValue`. -/
def decodeFieldDefaultValue (f : FieldDescriptor) : LuaM Unit := do
  luaPushstring f.name
  if f.repeated then luaNewtable else pushDefault f.type
  luaSettable

/-- `decodeDescriptor` on the default instance of a type, which is what `GetMessage` returns for an
unset sub-message. -/
def decodeDefaultInstance : List FieldDescriptor → LuaM Bool
  | [] => pure true
  | f :: fs => do
    decodeFieldDefaultValue f
    decodeDefaultInstance fs

/-- `decodeFieldSimple` of a scalar field. -/
def decodeScalarField (f : FieldDescriptor) (v : Scalar) : LuaM Bool := do
  luaPushstring f.name
  match v with
  | .string s => luaPushstring s
  -- The default brings a key of its own and would be set in that key's place; `decodeDescriptor` never
  -- comes here with a default.
  | v => if hasField (.scalar v) then pushScalar v else decodeFieldDefaultValue f
  luaSettable
  return true

/-- `decodeFieldSimple` of a sub-message field; `fields` decodes the sub-message. -/
def decodeMessageField (f : FieldDescriptor) (fields : LuaM Bool) : LuaM Bool := do
  luaPushstring f.name
  luaNewtable
  let rc ← fields
  luaSettable
  return rc

/-- `decodeFieldRepeated` of a scalar. -/
def decodeScalarElement (index : ℕ) (v : Scalar) : LuaM Bool := do
  luaPushinteger index
  pushScalar v
  luaSettable
  return true

/-- `decodeFieldRepeated` of a sub-message; `fields` decodes it. -/
def decodeMessageElement (index : ℕ) (fields : LuaM Bool) : LuaM Bool := do
  luaPushinteger index
  luaNewtable
  let rc ← fields
  luaSettable
  return rc

mutual

/-- `decodeDescriptor`. -/
def decodeDescriptor (S : Schema) : List FieldDescriptor → List ProtoValue → LuaM Bool
  | [], _ => pure true
  | f :: fs, v :: vs =>
    if ¬ f.repeated ∧ ¬ hasField v then do
      decodeFieldDefaultValue f
      decodeDescriptor S fs vs
    else do
      if ← decodeField S f v then decodeDescriptor S fs vs
      else return false
  | _ :: _, [] => LuaM.fault .assertion

/-- `decodeField`, with `decodeFieldSimple`. Reflection aborts when the value is not one of the field. -/
def decodeField (S : Schema) (f : FieldDescriptor) : ProtoValue → LuaM Bool
  | .repeated es =>
    if f.repeated then do
      luaPushstring f.name
      luaNewtable
      let rc ← decodeElements S f.type 0 es
      luaSettable
      return rc
    else LuaM.fault .assertion
  | .scalar v => if f.repeated then LuaM.fault .assertion else decodeScalarField f v
  | .unset =>
    match f.repeated, f.type with
    | false, .message t => decodeMessageField f (decodeDefaultInstance (S.types t))
    | _, _ => LuaM.fault .assertion
  | .message vs =>
    match f.repeated, f.type with
    | false, .message t => decodeMessageField f (decodeDescriptor S (S.types t) vs)
    | _, _ => LuaM.fault .assertion

/-- The loop of `decodeField` over a repeated field, from `index` on. -/
def decodeElements (S : Schema) (t : FieldType) (index : ℕ) : List ProtoValue → LuaM Bool
  | [] => pure true
  | .scalar v :: es => do
    if ← decodeScalarElement index v then decodeElements S t (index + 1) es
    else return false
  | .message vs :: es =>
    match t with
    | .message t' => do
      if ← decodeMessageElement index (decodeDescriptor S (S.types t') vs) then
        decodeElements S t (index + 1) es
      else return false
    | _ => LuaM.fault .assertion
  | .unset :: _ => LuaM.fault .assertion
  | .repeated _ :: _ => LuaM.fault .assertion

end

/-! ### The table of a message -/

/-- A scalar as Lua sees it. -/
def luaScalar : Scalar → LuaValue
  | .int32 v => .number (BinaryFloat.ofInt v.toInt)
  | .int64 v => .number (BinaryFloat.ofInt v.toInt)
  | .uint32 v => .number (BinaryFloat.ofInt v.toNat)
  | .uint64 v => .number (BinaryFloat.ofInt v.toInt)
  | .double x => .number x
  | .float x => .number x.convert
  | .bool b => .boolean b
  | .enum v => .number (BinaryFloat.ofInt v.toInt)
  | .string s => .string (cstring s)

/-- The key of an element of a repeated field. -/
def indexKey (index : ℕ) : LuaKey :=
  .number (BinaryFloat.ofInt index) (FloatFormat.round_ne_nan _)

mutual

/-- The entries of a message's table. -/
def luaFields (S : Schema) : List FieldDescriptor → List ProtoValue → LuaEntries
  | f :: fs, v :: vs => (.string f.name, luaOf S f.type v) :: luaFields S fs vs
  | _, _ => []

/-- The value of a field in the table of its message. -/
def luaOf (S : Schema) (t : FieldType) : ProtoValue → LuaValue
  | .scalar v => luaScalar v
  | .unset => .table []
  | .message vs =>
    match t with
    | .message t => .table (luaFields S (S.types t) vs)
    | _ => .table []
  | .repeated es => .table (luaElements S t 0 es)

/-- The entries of a repeated field's table, from `index` on. -/
def luaElements (S : Schema) (t : FieldType) (index : ℕ) : List ProtoValue → LuaEntries
  | [] => []
  | e :: es => (indexKey index, luaOf S t e) :: luaElements S t (index + 1) es

end

theorem luaOf_not_nil (S : Schema) (t : FieldType) (v : ProtoValue) : (luaOf S t v).isNil = false := by
  cases v with
  | scalar v => cases v <;> rfl
  | unset => rfl
  | message vs => cases t <;> rfl
  | repeated es => rfl

/-! ### The decoder builds it -/

theorem run_pushScalar (v : Scalar) (L : LuaState) :
    (pushScalar v).run L = (.ok (), { L with stack := luaScalar v :: L.stack }) := by
  cases v <;> rfl

/-- The default pushed for a scalar type is its default scalar. -/
theorem run_pushDefault {t : FieldType} {v : Scalar} (h : t.defaultScalar = some v) (L : LuaState) :
    (pushDefault t).run L = (.ok (), { L with stack := luaScalar v :: L.stack }) := by
  cases t with
  | float =>
    cases h
    simp only [pushDefault, run_luaPushnumber, luaScalar, BinaryFloat.convert_ofInt_zero]
  | message m => cases h
  | int32 | int64 | uint32 | uint64 | double | bool | enum | string => cases h; rfl

/-- Setting a field that the table does not have yet. -/
theorem run_settable_field {name : List Byte} (hnul : 0 ∉ name) {es : LuaEntries}
    (hfresh : LuaKey.string name ∉ es.map Prod.fst) {v : LuaValue} (hv : v.isNil = false)
    (L : LuaState) (rest : List LuaValue) :
    luaSettable.run { L with stack := v :: .string (cstring name) :: .table es :: rest } =
      (.ok (), { L with stack := .table (es ++ [(.string name, v)]) :: rest }) := by
  have hkey : (LuaValue.string (cstring name)).toKey = some (.string name) := by
    rw [cstring_of_nul_free hnul]
    rfl
  rw [run_luaSettable L rest hkey v es, tableSet_of_not_mem hfresh hv]

/-- Setting an element that the table does not have yet. -/
theorem run_settable_element {index : ℕ} {es : LuaEntries}
    (hfresh : indexKey index ∉ es.map Prod.fst) {v : LuaValue} (hv : v.isNil = false)
    (L : LuaState) (rest : List LuaValue) :
    luaSettable.run
        { L with stack := v :: .number (BinaryFloat.ofInt index) :: .table es :: rest } =
      (.ok (), { L with stack := .table (es ++ [(indexKey index, v)]) :: rest }) := by
  have hkey : (LuaValue.number (BinaryFloat.ofInt index)).toKey = some (indexKey index) :=
    dif_pos (FloatFormat.round_ne_nan _)
  rw [run_luaSettable L rest hkey v es, tableSet_of_not_mem hfresh hv]

/-- The code returns `a` and extends the table on top, which has the entries `es`, by `new`. -/
def Extends {α : Type} (x : LuaM α) (a : α) (es new : LuaEntries) : Prop :=
  ∀ (L : LuaState) (rest : List LuaValue), x.run { L with stack := .table es :: rest } =
    (.ok a, { L with stack := .table (es ++ new) :: rest })

/-- A singular field that `HasField` does not report gets its default, which is its value. -/
theorem decodeFieldDefaultValue_extends {S : Schema} {P : Scalar → Prop} {f : FieldDescriptor}
    {v : ProtoValue} (h : FieldFits S P f v) (hrep : f.repeated = false) (hhas : hasField v = false)
    (hnul : 0 ∉ f.name) {es : LuaEntries} (hfresh : LuaKey.string f.name ∉ es.map Prod.fst) :
    Extends (decodeFieldDefaultValue f) () es [(.string f.name, luaOf S f.type v)] := by
  intro L rest
  have hpush : ∀ L : LuaState, (pushDefault f.type).run L =
      (.ok (), { L with stack := luaOf S f.type v :: L.stack }) := by
    intro L
    cases h with
    | single _ hfits =>
      cases hfits with
      | scalar htype _ =>
        refine run_pushDefault ?_ L
        rw [← htype]
        exact (not_not.1 (of_decide_eq_false hhas)).symm
      | message _ hfields => cases hhas
    | unset _ htype => rw [htype]; rfl
    | repeated hrep' => rw [hrep] at hrep'; cases hrep'
  simp only [decodeFieldDefaultValue, LuaM.run_bind, run_luaPushstring, hrep, hpush, Bool.false_eq_true,
    if_false]
  exact run_settable_field hnul hfresh (luaOf_not_nil S f.type v) L rest

theorem decodeScalarField_extends {S : Schema} {f : FieldDescriptor} {v : Scalar}
    (hhas : hasField (.scalar v) = true) (hnul : 0 ∉ f.name) {es : LuaEntries}
    (hfresh : LuaKey.string f.name ∉ es.map Prod.fst) :
    Extends (decodeScalarField f v) true es [(.string f.name, luaOf S f.type (.scalar v))] := by
  intro L rest
  have hset := run_settable_field hnul hfresh (luaOf_not_nil S f.type (.scalar v)) L rest
  cases v with
  | string s =>
    simp only [decodeScalarField, LuaM.run_bind, run_luaPushstring]
    rw [show LuaValue.string (cstring s) = luaOf S f.type (.scalar (.string s)) from rfl, hset]
    rfl
  | int32 | int64 | uint32 | uint64 | double | float | bool | enum =>
    simp only [decodeScalarField, LuaM.run_bind, run_luaPushstring, hhas, if_true, run_pushScalar]
    rw [luaOf] at hset
    rw [hset]
    rfl

/-- A sub-message is decoded into a new table, which is then set in the table of its owner. -/
theorem decodeMessageField_extends {S : Schema} {f : FieldDescriptor} {t : ℕ}
    {vs : List ProtoValue} (htype : f.type = .message t) {fields : LuaM Bool}
    (hfields : Extends fields true [] (luaFields S (S.types t) vs)) (hnul : 0 ∉ f.name)
    {es : LuaEntries} (hfresh : LuaKey.string f.name ∉ es.map Prod.fst) :
    Extends (decodeMessageField f fields) true es
      [(.string f.name, luaOf S f.type (.message vs))] := by
  intro L rest
  have hset := run_settable_field hnul hfresh (luaOf_not_nil S f.type (.message vs)) L rest
  have hsub := hfields L (.string (cstring f.name) :: .table es :: rest)
  rw [List.nil_append] at hsub
  simp only [decodeMessageField, LuaM.run_bind, run_luaPushstring, run_luaNewtable, hsub]
  simp only [htype, luaOf] at hset ⊢
  rw [hset]
  rfl

theorem index?_indexKey {i : ℕ} (hi : i < 2 ^ 31) : (indexKey i).index? = some i := by
  have hrep : binary64.Representable ((i : ℤ) : ℚ) :=
    FloatFormat.representable_intCast (by decide) (by decide) (by
      rw [abs_of_nonneg (Int.natCast_nonneg i)]
      have : (2 : ℤ) ^ 31 ≤ 2 ^ binary64.precision := by decide
      omega)
  exact LuaKey.index?_number (FloatFormat.round_of_representable hrep)

theorem indexKey_inj {i j : ℕ} (hi : i < 2 ^ 31) (hj : j < 2 ^ 31) (h : indexKey i = indexKey j) :
    i = j := by
  have hindex := congrArg LuaKey.index? h
  rw [index?_indexKey hi, index?_indexKey hj] at hindex
  exact Option.some.inj hindex

/-- The loop over a repeated field fills its table, if each sub-message among the elements is decoded
as it should be. -/
theorem decodeElements_extends {S : Schema} {P : Scalar → Prop} {t : FieldType}
    {els : List ProtoValue} (hfits : ∀ e ∈ els, Fits S P t e)
    (hsub : ∀ t' vs, t = .message t' → .message vs ∈ els →
      Extends (decodeDescriptor S (S.types t') vs) true [] (luaFields S (S.types t') vs))
    (index : ℕ) (hindex : index + els.length < 2 ^ 31) (es : LuaEntries)
    (hfresh : ∀ i, index ≤ i → i < 2 ^ 31 → indexKey i ∉ es.map Prod.fst) :
    Extends (decodeElements S t index els) true es (luaElements S t index els) := by
  induction els generalizing index es with
  | nil =>
    intro L rest
    simp [decodeElements, luaElements]
  | cons e els ih =>
    intro L rest
    rw [List.length_cons] at hindex
    have hnew := hfresh index le_rfl (by omega)
    have hset := run_settable_element hnew (luaOf_not_nil S t e) L rest
    -- Indices below `2 ^ 31` are exact as doubles, so the next key is a new one.
    have hnext : ∀ i, index + 1 ≤ i → i < 2 ^ 31 →
        indexKey i ∉ (es ++ [(indexKey index, luaOf S t e)]).map Prod.fst := by
      intro i hi hlt hmem
      rw [List.map_append, List.mem_append] at hmem
      rcases hmem with hmem | hmem
      · exact hfresh i (by omega) hlt hmem
      · have heq := indexKey_inj hlt (by omega) (List.mem_singleton.1 hmem)
        omega
    have hrest := ih (fun e' he' => hfits e' (List.mem_cons_of_mem _ he'))
      (fun t' vs ht hvs => hsub t' vs ht (List.mem_cons_of_mem _ hvs)) (index + 1) (by omega) _
      hnext L rest
    rw [List.append_assoc] at hrest
    cases hfits e (List.mem_cons_self ..) with
    | scalar htype _ =>
      simp only [decodeElements, decodeScalarElement, LuaM.run_bind, run_luaPushinteger,
        run_pushScalar]
      rw [luaOf] at hset
      rw [hset]
      exact hrest
    | message htype _ =>
      rename_i t' vs _
      subst htype
      have hfields := hsub t' vs rfl (List.mem_cons_self ..) L
        (.number (BinaryFloat.ofInt index) :: .table es :: rest)
      rw [List.nil_append] at hfields
      simp only [decodeElements, decodeMessageElement, LuaM.run_bind, run_luaPushinteger,
        run_luaNewtable, hfields]
      simp only [luaOf] at hset
      rw [hset]
      exact hrest

mutual

/-- The decoder, on whatever stack, extends the table on top by the fields of the message. -/
theorem decodeDescriptor_extends {S : Schema} {P : Scalar → Prop} {fs : List FieldDescriptor}
    {vs : List ProtoValue} (h : FieldsFit S P fs vs) (hnodup : (fs.map FieldDescriptor.name).Nodup)
    (hnul : ∀ f ∈ fs, 0 ∉ f.name) (es : LuaEntries)
    (hfresh : ∀ f ∈ fs, LuaKey.string f.name ∉ es.map Prod.fst) :
    Extends (decodeDescriptor S fs vs) true es (luaFields S fs vs) := by
  cases h with
  | nil =>
    intro L rest
    simp [decodeDescriptor, luaFields]
  | cons hf hfs =>
    rename_i f v fs vs
    intro L rest
    rw [List.map_cons, List.nodup_cons] at hnodup
    have hnul_f := hnul f (List.mem_cons_self ..)
    have hfresh_f := hfresh f (List.mem_cons_self ..)
    have hrest := decodeDescriptor_extends hfs hnodup.2
      (fun g hg => hnul g (List.mem_cons_of_mem _ hg))
      (es ++ [(.string f.name, luaOf S f.type v)]) (by
        intro g hg hmem
        rw [List.map_append, List.mem_append] at hmem
        rcases hmem with hmem | hmem
        · exact hfresh g (List.mem_cons_of_mem _ hg) hmem
        · have hname := LuaKey.string.inj (List.mem_singleton.1 hmem)
          exact hnodup.1 (hname ▸ List.mem_map_of_mem hg)) L rest
    rw [List.append_assoc] at hrest
    -- Either the guard of the loop fills in the default, or `decodeField` reads the value.
    by_cases hskip : f.repeated = false ∧ hasField v = false
    · have hdefault :=
        decodeFieldDefaultValue_extends hf hskip.1 hskip.2 hnul_f hfresh_f L rest
      simp only [decodeDescriptor, hskip, Bool.false_eq_true, not_false_eq_true, and_self, if_true,
        LuaM.run_bind, hdefault]
      exact hrest
    · have hhas : f.repeated = false → hasField v = true := fun hrep => by
        by_contra hnot
        exact hskip ⟨hrep, by simpa using hnot⟩
      have hfield := decodeField_extends hf hhas hnul_f hfresh_f L rest
      have hguard : ¬ (¬ f.repeated = true ∧ ¬ hasField v = true) := by simpa using hskip
      simp only [decodeDescriptor, hguard, if_false, LuaM.run_bind, hfield, if_true]
      exact hrest
termination_by sizeOf vs

/-- So does the decoding of one field. -/
theorem decodeField_extends {S : Schema} {P : Scalar → Prop} {f : FieldDescriptor}
    {v : ProtoValue} (h : FieldFits S P f v) (hhas : f.repeated = false → hasField v = true)
    (hnul : 0 ∉ f.name) {es : LuaEntries} (hfresh : LuaKey.string f.name ∉ es.map Prod.fst) :
    Extends (decodeField S f v) true es [(.string f.name, luaOf S f.type v)] := by
  cases h with
  | single hrep hfits =>
    cases hfits with
    | scalar htype _ =>
      rw [decodeField, if_neg (by simp [hrep])]
      exact decodeScalarField_extends (hhas hrep) hnul hfresh
    | message htype hfields =>
      rename_i t vs
      have hsub := decodeDescriptor_extends hfields (S.names_nodup t) (S.nul_free t) [] nofun
      have hfield := decodeMessageField_extends htype hsub hnul hfresh
      simp only [decodeField, hrep, htype] at hfield ⊢
      exact hfield
  | unset hrep htype => cases hhas hrep
  | repeated hrep hlen hels =>
    rename_i els
    have hsub : ∀ t' vs, f.type = .message t' → ProtoValue.message vs ∈ els →
        Extends (decodeDescriptor S (S.types t') vs) true [] (luaFields S (S.types t') vs) := by
      intro t' vs ht hmem
      -- The element's fields are smaller than the whole field, which the recursion needs to know.
      cases hels _ hmem with
      | message htype hfields =>
        rw [ht] at htype
        cases htype
        have hsize : sizeOf vs < sizeOf (ProtoValue.repeated els) := by
          have hlt := List.sizeOf_lt_of_mem hmem
          simp only [ProtoValue.message.sizeOf_spec, ProtoValue.repeated.sizeOf_spec] at hlt ⊢
          omega
        exact decodeDescriptor_extends hfields (S.names_nodup t') (S.nul_free t') [] nofun
    intro L rest
    have hloop := decodeElements_extends hels hsub 0 (by omega) [] nofun L
      (.string (cstring f.name) :: .table es :: rest)
    rw [List.nil_append] at hloop
    have hset := run_settable_field hnul hfresh (luaOf_not_nil S f.type (.repeated els)) L rest
    rw [luaOf] at hset
    simp only [decodeField, hrep, if_true, LuaM.run_bind, run_luaPushstring, run_luaNewtable, hloop]
    rw [hset]
    rfl
termination_by sizeOf v

end

end Slam
