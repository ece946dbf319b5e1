import Slam.Codec.Decode
import Slam.Codec.Encode

/-!
# What the encoder reads from a table

`Encoded` relates a value on the stack to the message that the encoder makes of it. A scalar is read from the
value that a script writes for it (`Scalar.raw`), a string up to its first NUL; a repeated field from a table whose
keys are consecutive integers, in their order, because `lua_next` visits these ascending; a field that the table
does not have keeps its default.

The induction is on the fuel of the encoder. `SubReads` is what is known of the encoder of sub-messages, and each
field, each loop and each message then has one lemma.
-/

namespace Slam

/-! ### Scalars -/

/-- 64-bit integers lie within `± 2 ^ 53`. -/
def Scalar.Within : Scalar → Prop
  | .int64 v => |v.toInt| ≤ 2 ^ 53
  | .uint64 v => v.toNat ≤ 2 ^ 53
  | _ => True

/-- The value that a script writes for a scalar: a string with all its bytes. -/
def Scalar.raw : Scalar → LuaValue
  | .string s => .string s
  | v => luaScalar v

/-- The scalar that is read: a string up to its first NUL. -/
def Scalar.cut : Scalar → Scalar
  | .string s => .string (cstring s)
  | v => v

theorem Scalar.type_cut (v : Scalar) : v.cut.type = v.type := by
  cases v <;> rfl

theorem Scalar.raw_not_nil (v : Scalar) : v.raw.isNil = false := by
  cases v <;> rfl

theorem tointeger_ofInt (rt : LuaRuntime) {n : ℤ} (h : |n| ≤ 2 ^ 53) :
    rt.tointeger (.number (BinaryFloat.ofInt n)) = n :=
  doubleToInteger_ofInt h

theorem abs_toInt_le (v : BitVec 32) : |v.toInt| ≤ 2 ^ 53 := by
  have hlo := BitVec.le_toInt v
  have hhi := BitVec.toInt_lt (x := v)
  rw [abs_le]
  omega

theorem abs_toNat_le {n : ℕ} (h : n ≤ 2 ^ 53) : |(n : ℤ)| ≤ 2 ^ 53 := by
  rw [abs_of_nonneg (Int.natCast_nonneg n)]
  exact_mod_cast h

/-- With `v` on top of the stack, the code returns `a` and leaves the state as it is. -/
def Reads {α : Type} (x : LuaM α) (v : LuaValue) (a : α) : Prop :=
  ∀ (L : LuaState) (rest : List LuaValue),
    x.run { L with stack := v :: rest } = (.ok a, { L with stack := v :: rest })

/-- A scalar is read from its value. -/
theorem readScalar_reads (rt : LuaRuntime) {v : Scalar} (h : v.Within) : Reads (readScalar rt v.type) v.raw v.cut := by
  intro L rest
  cases v with
  | int32 v | enum v =>
    simp only [Scalar.type, readScalar, Scalar.raw, Scalar.cut, luaScalar, LuaM.run_bind, run_luaTop, LuaM.run_pure,
      tointeger_ofInt rt (abs_toInt_le v), BitVec.ofInt_toInt]
  | int64 v =>
    simp only [Scalar.type, readScalar, Scalar.raw, Scalar.cut, luaScalar, LuaM.run_bind, run_luaTop, LuaM.run_pure,
      tointeger_ofInt rt h, BitVec.ofInt_toInt]
  | uint32 v =>
    have hle : v.toNat ≤ 2 ^ 53 := by have := v.isLt; omega
    simp only [Scalar.type, readScalar, Scalar.raw, Scalar.cut, luaScalar, LuaM.run_bind, run_luaTop, LuaM.run_pure,
      tointeger_ofInt rt (abs_toNat_le hle), BitVec.ofInt_natCast, BitVec.ofNat_toNat,
      BitVec.setWidth_eq]
  | uint64 v =>
    -- The value lies below `2 ^ 63`, so the conversion to `lua_Integer` keeps it.
    have hint : v.toInt = v.toNat := BitVec.toInt_eq_toNat_of_lt (by
      have hle : v.toNat ≤ 2 ^ 53 := h
      omega)
    have hexact : |v.toInt| ≤ 2 ^ 53 := by rw [hint]; exact abs_toNat_le h
    simp only [Scalar.type, readScalar, Scalar.raw, Scalar.cut, luaScalar, LuaM.run_bind, run_luaTop, LuaM.run_pure,
      tointeger_ofInt rt hexact, BitVec.ofInt_toInt]
  | double x => rfl
  | float x =>
    simp only [Scalar.type, readScalar, Scalar.raw, Scalar.cut, luaScalar, LuaM.run_bind, run_luaTop, LuaM.run_pure,
      LuaRuntime.tonumber, BinaryFloat.convert_convert FloatFormat.binary32_embeds_binary64]
  | bool b => rfl
  | string s =>
    simp only [Scalar.type, readScalar, readString, Scalar.raw, Scalar.cut, LuaM.run_bind, run_luaTop,
      LuaM.run_pure, LuaRuntime.tostring, run_luaReplaceTop]

/-! ### Sequences -/

/-- The entries of a table with the keys `index, index + 1, …`. -/
def luaSequence (index : ℕ) : List LuaValue → LuaEntries
  | [] => []
  | v :: vs => (indexKey index, v) :: luaSequence (index + 1) vs

theorem luaElements_eq (S : Schema) (t : FieldType) (index : ℕ) (els : List ProtoValue) :
    luaElements S t index els = luaSequence index (els.map (luaOf S t)) := by
  induction els generalizing index with
  | nil => rfl
  | cons e els ih => rw [luaElements, ih, List.map_cons, luaSequence]

theorem luaSequence_fst (index : ℕ) (vs : List LuaValue) :
    (luaSequence index vs).map Prod.fst = (List.range' index vs.length).map indexKey := by
  induction vs generalizing index with
  | nil => rfl
  | cons v vs ih => rw [luaSequence, List.map_cons, ih, List.length_cons, List.range'_succ, List.map_cons]

theorem index?_of_mem_luaSequence {index : ℕ} {vs : List LuaValue} (hlen : index + vs.length ≤ 2 ^ 31)
    {e : LuaKey × LuaValue} (he : e ∈ luaSequence index vs) : ∃ i, index ≤ i ∧ e.1.index? = some i := by
  have hkey : e.1 ∈ (luaSequence index vs).map Prod.fst := List.mem_map_of_mem he
  rw [luaSequence_fst] at hkey
  obtain ⟨i, hi, hie⟩ := List.mem_map.1 hkey
  rw [List.mem_range'_1] at hi
  refine ⟨i, hi.1, ?_⟩
  rw [← hie]
  exact index?_indexKey (by omega)

theorem luaSequence_keys_nodup {index : ℕ} {vs : List LuaValue} (hlen : index + vs.length ≤ 2 ^ 31) :
    ((luaSequence index vs).map Prod.fst).Nodup := by
  rw [luaSequence_fst]
  refine List.Nodup.map_on ?_ List.nodup_range'
  intro i hi j hj heq
  rw [List.mem_range'_1] at hi hj
  exact indexKey_inj (by omega) (by omega) heq

/-- The keys of a sequence ascend. -/
theorem luaSequence_ascending {index : ℕ} {vs : List LuaValue} (hlen : index + vs.length ≤ 2 ^ 31) :
    (luaSequence index vs).Pairwise fun a b => ∀ i ∈ a.1.index?, ∀ j ∈ b.1.index?, i < j := by
  induction vs generalizing index with
  | nil => exact List.Pairwise.nil
  | cons v vs ih =>
    rw [List.length_cons] at hlen
    refine List.Pairwise.cons ?_ (ih (by omega))
    intro b hb i hi j hj
    have hi' : index = i := Option.some.inj ((index?_indexKey (by omega)).symm.trans hi)
    obtain ⟨j', hle, hj'⟩ := index?_of_mem_luaSequence (by omega) hb
    have hjj : j' = j := Option.some.inj (hj'.symm.trans hj)
    omega

/-- `lua_next` visits a sequence in the order of its keys. -/
theorem next_luaSequence {rt : LuaRuntime} (hnext : rt.AscendingNext) {index : ℕ} {vs : List LuaValue} {es : LuaEntries}
    (hperm : es.Perm (luaSequence index vs)) (hlen : index + vs.length ≤ 2 ^ 31) : rt.next es = luaSequence index vs := by
  have hnodup : (es.map Prod.fst).Nodup := (hperm.map Prod.fst).nodup_iff.2 (luaSequence_keys_nodup hlen)
  have hvisited : (rt.next es).Perm (luaSequence index vs) := (rt.next_perm es).trans hperm
  -- Both lists have the same entries, and both ascend.
  refine List.Perm.eq_of_pairwise ?_ (hnext es hnodup) (luaSequence_ascending hlen) hvisited
  intro a b ha hb hab hba
  obtain ⟨i, -, hi⟩ := index?_of_mem_luaSequence hlen (hvisited.mem_iff.1 ha)
  obtain ⟨j, -, hj⟩ := index?_of_mem_luaSequence hlen hb
  have hij := hab i hi j hj
  have hji := hba j hj i hi
  omega

/-! ### Tables and the messages that they are read to -/

mutual

/-- The value of the given type is read to the message value; sequences have the keys `start, start + 1, …`. -/
inductive Encoded (S : Schema) (start : ℕ) : FieldType → LuaValue → ProtoValue → Prop
  | scalar {type : FieldType} {v : Scalar} : v.type = type → v.Within → Encoded S start type v.raw (.scalar v.cut)
  | message {type : FieldType} {t : ℕ} {es : LuaEntries} {ms : List ProtoValue} :
      type = .message t → FieldsEncoded S start es (S.types t) ms → Encoded S start type (.table es) (.message ms)

/-- What stands in a table under the name of the field is read to the value. -/
inductive FieldEncoded (S : Schema) (start : ℕ) : FieldDescriptor → LuaValue → ProtoValue → Prop
  | missing {f : FieldDescriptor} : FieldEncoded S start f .nil f.default
  | single {f : FieldDescriptor} {v : LuaValue} {m : ProtoValue} :
      f.repeated = false → Encoded S start f.type v m → FieldEncoded S start f v m
  | repeated {f : FieldDescriptor} {es : LuaEntries} {vs : List LuaValue} {ms : List ProtoValue} :
      f.repeated = true → es.Perm (luaSequence start vs) → start + vs.length ≤ 2 ^ 31 → vs.length < 2 ^ 31 →
      ElementsEncoded S start f.type vs ms → FieldEncoded S start f (.table es) (.repeated ms)

/-- The elements are read one by one. -/
inductive ElementsEncoded (S : Schema) (start : ℕ) : FieldType → List LuaValue → List ProtoValue → Prop
  | nil {type : FieldType} : ElementsEncoded S start type [] []
  | cons {type : FieldType} {v : LuaValue} {m : ProtoValue} {vs : List LuaValue} {ms : List ProtoValue} :
      Encoded S start type v m → ElementsEncoded S start type vs ms → ElementsEncoded S start type (v :: vs) (m :: ms)

/-- The fields of a table are read one by one. -/
inductive FieldsEncoded (S : Schema) (start : ℕ) : LuaEntries → List FieldDescriptor → List ProtoValue → Prop
  | nil {es : LuaEntries} : FieldsEncoded S start es [] []
  | cons {es : LuaEntries} {f : FieldDescriptor} {m : ProtoValue} {fs : List FieldDescriptor} {ms : List ProtoValue} :
      FieldEncoded S start f (tableGet es (.string f.name)) m → FieldsEncoded S start es fs ms → FieldsEncoded S start es (f :: fs) (m :: ms)

end

theorem Encoded.not_nil {S : Schema} {start : ℕ} {type : FieldType} {v : LuaValue} {m : ProtoValue} (h : Encoded S start type v m) :
    v.isNil = false := by
  cases h with
  | scalar => exact Scalar.raw_not_nil _
  | message => rfl

theorem mem_luaSequence (index : ℕ) {vs : List LuaValue} {v : LuaValue} (h : v ∈ vs) :
    ∃ k, (k, v) ∈ luaSequence index vs := by
  induction vs generalizing index with
  | nil => cases h
  | cons w vs ih =>
    rcases List.mem_cons.1 h with rfl | h
    · exact ⟨_, List.mem_cons_self ..⟩
    · obtain ⟨k, hk⟩ := ih (index + 1) h
      exact ⟨k, List.mem_cons_of_mem _ hk⟩

/-! ### The encoder -/

/-- The encoder of sub-messages reads every table of size up to `n`. -/
def SubReads (S : Schema) (start : ℕ) (sub : MessageEncoder) (n : ℕ) : Prop :=
  ∀ t v ms, Encoded S start (.message t) v (.message ms) → sizeOf v ≤ n → Reads (sub t (S.newMessage t)) v (true, ms)

section Fields

variable {S : Schema} {start : ℕ} (rt : LuaRuntime) {sub : MessageEncoder} {n : ℕ}

/-- A singular field is read. -/
theorem encodeFieldSimple_reads (hsub : SubReads S start sub n) {f : FieldDescriptor} (hrep : f.repeated = false)
    {v : LuaValue} {m : ProtoValue} (h : Encoded S start f.type v m) (hsize : sizeOf v ≤ n) :
    Reads (encodeFieldSimple S rt sub f.type f.default) v (true, m) := by
  intro L rest
  have hnil := h.not_nil
  cases h with
  | @scalar _ v htype hwithin =>
    have hread := readScalar_reads rt hwithin L rest
    rw [← htype]
    simp only [encodeFieldSimple, LuaM.run_bind, run_luaTop, hnil, Bool.false_eq_true, if_false]
    -- The type is known in each case, and with it the branch that reads a scalar.
    cases v <;> simp only [Scalar.type] at hread ⊢ <;> rw [LuaM.run_bind_of_ok hread] <;> rfl
  | @message _ t es ms htype hfields =>
    have hread := hsub t (.table es) ms (.message rfl hfields) hsize L rest
    rw [FieldDescriptor.default_message hrep htype, htype]
    simp only [encodeFieldSimple, LuaM.run_bind, run_luaTop, hnil, Bool.false_eq_true, if_false, mutableMessage, hread]
    rfl

/-- An element of a repeated field is read and appended. -/
theorem encodeFieldRepeated_reads (hsub : SubReads S start sub n) {type : FieldType} {v : LuaValue} {m : ProtoValue}
    (h : Encoded S start type v m) (hsize : sizeOf v ≤ n) (ms : List ProtoValue) :
    Reads (encodeFieldRepeated S rt sub type ms) v (true, ms ++ [m]) := by
  intro L rest
  have hnil := h.not_nil
  cases h with
  | @scalar _ v htype hwithin =>
    have hread := readScalar_reads rt hwithin L rest
    rw [← htype]
    simp only [encodeFieldRepeated, LuaM.run_bind, run_luaTop, hnil, Bool.false_eq_true, if_false]
    cases v <;> simp only [Scalar.type] at hread ⊢ <;> rw [LuaM.run_bind_of_ok hread] <;> rfl
  | @message _ t es _ htype hfields =>
    have hread := hsub t (.table es) _ (.message rfl hfields) hsize L rest
    rw [htype]
    simp only [encodeFieldRepeated, LuaM.run_bind, run_luaTop, hnil, Bool.false_eq_true, if_false, hread]
    rfl

/-- The loop over the table of a repeated field takes the key off the stack and appends every
element. -/
theorem run_encodeElements (hsub : SubReads S start sub n) {type : FieldType} {vs : List LuaValue} {ms : List ProtoValue}
    (h : ElementsEncoded S start type vs ms) (hsize : ∀ v ∈ vs, sizeOf v ≤ n) (index : ℕ) (done : List ProtoValue)
    (L : LuaState) {key : LuaValue} (hkey : key.isTable = false) (rest : List LuaValue) :
    (encodeElements S rt sub type true (luaSequence index vs) done).run { L with stack := key :: rest } =
      (.ok (true, done ++ ms), { L with stack := rest }) := by
  induction vs generalizing ms index done key with
  | nil =>
    cases h
    simp only [luaSequence, encodeElements, LuaM.run_bind, run_luaTakeKey hkey, LuaM.run_pure, List.append_nil]
  | cons v vs ih =>
    cases h with
    | @cons _ _ m _ ms hm hms =>
      -- The key of this element stays on the stack as the one that `lua_next` continues from.
      have hread := encodeFieldRepeated_reads rt hsub hm (hsize v (List.mem_cons_self ..)) done L
        (.ofKey (indexKey index) :: rest)
      have hrest := ih hms (fun w hw => hsize w (List.mem_cons_of_mem _ hw)) (index + 1) (done ++ [m])
        (rfl : (LuaValue.ofKey (indexKey index)).isTable = false)
      rw [List.append_assoc] at hrest
      simp only [luaSequence, encodeElements, LuaM.run_bind, run_luaTakeKey hkey, run_luaPop_one, run_luaPush, if_true,
        hread]
      exact hrest

theorem encodeField_reads (hnext : rt.AscendingNext) (hsub : SubReads S start sub n) {f : FieldDescriptor} (hnul : 0 ∉ f.name)
    {es : LuaEntries} {m : ProtoValue} (h : FieldEncoded S start f (tableGet es (.string f.name)) m)
    (hsize : sizeOf (tableGet es (.string f.name)) ≤ n) :
    Reads (encodeField S rt sub f f.default) (.table es) (true, m) := by
  intro L rest
  generalize hget : tableGet es (.string f.name) = v at h hsize
  cases h with
  | missing =>
    cases hrep : f.repeated with
    | false =>
      simp [encodeField, LuaM.run_bind, hrep, encodeFieldSimple, hget, cstring_of_nul_free hnul, LuaValue.isNil]
    | true =>
      rw [FieldDescriptor.default_repeated hrep]
      simp [encodeField, LuaM.run_bind, hrep, hget, cstring_of_nul_free hnul, elements]
  | single hrep hv =>
    have hread := encodeFieldSimple_reads rt hsub hrep hv hsize L (.table es :: rest)
    simp only [encodeField, LuaM.run_bind, run_luaPushstring, run_luaGettable, cstring_of_nul_free hnul,
      hget, hrep, Bool.false_eq_true, if_false, hread, run_luaPop_one, LuaM.run_pure]
  | @repeated _ entries vs ms hrep hperm hlen _ hms =>
    have hsmall : ∀ v ∈ vs, sizeOf v ≤ n := by
      intro v hv
      obtain ⟨k, hk⟩ := mem_luaSequence start hv
      exact ((sizeOf_lt_of_mem_entries (hperm.mem_iff.2 hk)).trans_le hsize).le
    -- The loop starts from the nil that stands for no key, and takes it off.
    have hloop := run_encodeElements rt hsub hms hsmall start [] L (rfl : LuaValue.nil.isTable = false)
      (.table entries :: .table es :: rest)
    simp only [encodeField, LuaM.run_bind, run_luaPushstring, run_luaGettable,
      cstring_of_nul_free hnul, hget, hrep, if_true, run_luaTop, run_luaPushnil,
      FieldDescriptor.default_repeated hrep, elements,
      next_luaSequence hnext hperm hlen, hloop, run_luaPop_one, LuaM.run_pure,
      List.nil_append]

/-- The loop over the fields. -/
theorem encodeFields_reads (hnext : rt.AscendingNext) (hsub : SubReads S start sub n) {fs : List FieldDescriptor}
    (hnul : ∀ f ∈ fs, 0 ∉ f.name) {es : LuaEntries} (hsize : sizeOf (LuaValue.table es) ≤ n + 1)
    {ms : List ProtoValue} (h : FieldsEncoded S start es fs ms) :
    Reads (encodeFields S rt sub fs (fs.map FieldDescriptor.default)) (.table es) (true, ms) := by
  intro L rest
  induction fs generalizing ms with
  | nil =>
    cases h
    rfl
  | cons f fs ih =>
    cases h with
    | cons hm hms =>
      have hsmall := sizeOf_tableGet_lt es (.string f.name)
      have hfield := encodeField_reads rt hnext hsub (hnul f (List.mem_cons_self ..)) hm (by omega) L rest
      have hfields := ih (fun g hg => hnul g (List.mem_cons_of_mem _ hg)) hms
      simp only [List.map_cons, encodeFields, LuaM.run_bind, hfield, if_true, hfields, LuaM.run_pure]

end Fields

/-- The encoder reads every table of size up to its fuel. -/
theorem encodeDescriptor_reads (S : Schema) (start : ℕ) {rt : LuaRuntime} (hnext : rt.AscendingNext) (fuel : ℕ) :
    SubReads S start (encodeDescriptor S rt fuel) fuel := by
  induction fuel with
  | zero =>
    intro t v ms h hsize
    -- Every value has a positive size.
    cases v <;> simp at hsize
  | succ fuel ih =>
    intro t v ms h hsize L rest
    cases h with
    | message htype hfields =>
      cases htype
      simp only [encodeDescriptor, LuaM.run_bind, run_luaTop, LuaValue.isTable, if_true]
      exact encodeFields_reads rt hnext ih (S.nul_free t) hsize hfields L rest

end Slam
