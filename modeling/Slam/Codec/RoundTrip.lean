import Slam.Codec.Reading

/-!
# Message to table to message

What the encoder reads back from the table of a message. A scalar comes back when a double holds it and,
for a string, when it has no NUL: `Scalar.Exact`. A repeated field comes back in its order because
`lua_next` visits the keys `0, 1, …` ascending. A sub-message that is not set comes back as an empty one,
since the decoder writes an empty table for it: `fill` is the message with these put in.

`encoded_luaOf` says that the table of a message is one that is read to the filled message; the rest is what is
known of the encoder on such tables.
-/

namespace Slam

/-! ### Scalars -/

/-- The scalar survives in Lua: 64-bit integers lie within `± 2 ^ 53`, strings have no NUL. -/
def Scalar.Exact : Scalar → Prop
  | .int64 v => |v.toInt| ≤ 2 ^ 53
  | .uint64 v => v.toNat ≤ 2 ^ 53
  | .string s => 0 ∉ s
  | _ => True

theorem Scalar.Exact.within {v : Scalar} (h : v.Exact) : v.Within := by
  cases v with
  | int64 v => exact h
  | uint64 v => exact h
  | int32 | uint32 | double | float | bool | enum | string => trivial

theorem Scalar.Exact.raw_eq {v : Scalar} (h : v.Exact) : v.raw = luaScalar v := by
  cases v with
  | string s => rw [Scalar.raw, luaScalar, cstring_of_nul_free h]
  | int32 | int64 | uint32 | uint64 | double | float | bool | enum => rfl

theorem Scalar.Exact.cut_eq {v : Scalar} (h : v.Exact) : v.cut = v := by
  cases v with
  | string s => rw [Scalar.cut, cstring_of_nul_free h]
  | int32 | int64 | uint32 | uint64 | double | float | bool | enum => rfl

/-! ### The message that comes back -/

mutual

/-- The fields of a message, with its unset sub-messages made present. -/
def fillFields (S : Schema) : List FieldDescriptor → List ProtoValue → List ProtoValue
  | f :: fs, v :: vs => fill S f.type v :: fillFields S fs vs
  | _, vs => vs

/-- A value in which the singular sub-messages that are not set are present and empty. -/
def fill (S : Schema) (type : FieldType) : ProtoValue → ProtoValue
  | .scalar v => .scalar v
  | .unset =>
    match type with
    | .message t => .message (S.newMessage t)
    | _ => .unset
  | .message vs =>
    match type with
    | .message t => .message (fillFields S (S.types t) vs)
    | _ => .message vs
  | .repeated es => .repeated (fillElements S type es)

/-- The elements of a repeated field, filled. -/
def fillElements (S : Schema) (type : FieldType) : List ProtoValue → List ProtoValue
  | [] => []
  | e :: es => fill S type e :: fillElements S type es

end

/-! ### The table of a message has its fields -/

theorem luaFields_eq_map (S : Schema) (fs : List FieldDescriptor) (vs : List ProtoValue) :
    luaFields S fs vs =
      (fs.zip vs).map fun p => (LuaKey.string p.1.name, luaOf S p.1.type p.2) := by
  induction fs generalizing vs with
  | nil => simp [luaFields]
  | cons f fs ih =>
    cases vs with
    | nil => simp [luaFields]
    | cons v vs => rw [luaFields, ih, List.zip_cons_cons, List.map_cons]

theorem luaFields_keys_nodup (S : Schema) {fs : List FieldDescriptor}
    (hnodup : (fs.map FieldDescriptor.name).Nodup) (vs : List ProtoValue) :
    ((luaFields S fs vs).map Prod.fst).Nodup := by
  have hsub : ((luaFields S fs vs).map Prod.fst).Sublist
      ((fs.map FieldDescriptor.name).map LuaKey.string) := by
    clear hnodup
    induction fs generalizing vs with
    | nil => simp [luaFields]
    | cons f fs ih =>
      cases vs with
      | nil => simp [luaFields]
      | cons v vs =>
        rw [luaFields]
        exact (ih vs).cons_cons _
  exact (hnodup.map fun a b => LuaKey.string.inj).sublist hsub

theorem tableGet_luaFields {S : Schema} {fs : List FieldDescriptor}
    (hnodup : (fs.map FieldDescriptor.name).Nodup) {vs : List ProtoValue} :
    ∀ p ∈ fs.zip vs, tableGet (luaFields S fs vs) (.string p.1.name) = luaOf S p.1.type p.2 := by
  intro p hp
  refine tableGet_of_mem (luaFields_keys_nodup S hnodup vs) ?_
  rw [luaFields_eq_map]
  exact List.mem_map_of_mem hp

/-! ### The table of a message is read back -/

/-- An empty table is read to a new message. -/
theorem fieldsEncoded_nil (S : Schema) (fs : List FieldDescriptor) :
    FieldsEncoded S 0 [] fs (fs.map FieldDescriptor.default) := by
  induction fs with
  | nil => exact .nil
  | cons f fs ih => exact .cons .missing ih

mutual

theorem encoded_luaOf {S : Schema} {type : FieldType} {v : ProtoValue} (h : Fits S Scalar.Exact type v) :
    Encoded S 0 type (luaOf S type v) (fill S type v) := by
  cases h with
  | scalar htype hexact =>
    rename_i v
    have hencoded : Encoded S 0 _ _ _ := .scalar htype hexact.within
    rw [hexact.raw_eq, hexact.cut_eq] at hencoded
    rw [luaOf, fill]
    exact hencoded
  | message htype hfields =>
    rename_i t vs
    subst htype
    rw [luaOf, fill]
    refine .message rfl (fieldsEncoded_luaFields hfields fun p hp => ?_)
    exact tableGet_luaFields (S.names_nodup t) p hp
termination_by sizeOf v

theorem elementsEncoded_luaOf {S : Schema} {type : FieldType} {els : List ProtoValue}
    (h : ∀ e ∈ els, Fits S Scalar.Exact type e) :
    ElementsEncoded S 0 type (els.map (luaOf S type)) (fillElements S type els) := by
  match els with
  | [] => exact .nil
  | e :: els =>
    rw [List.map_cons, fillElements]
    exact .cons (encoded_luaOf (h e (List.mem_cons_self ..)))
      (elementsEncoded_luaOf fun e' he' => h e' (List.mem_cons_of_mem _ he'))
termination_by sizeOf els

theorem fieldsEncoded_luaFields {S : Schema} {es : LuaEntries} {fs : List FieldDescriptor} {vs : List ProtoValue}
    (h : FieldsFit S Scalar.Exact fs vs)
    (hget : ∀ p ∈ fs.zip vs, tableGet es (.string p.1.name) = luaOf S p.1.type p.2) :
    FieldsEncoded S 0 es fs (fillFields S fs vs) := by
  cases h with
  | nil => exact .nil
  | cons hf hfs =>
    rename_i f v fs vs
    rw [fillFields]
    refine .cons ?_ (fieldsEncoded_luaFields hfs fun p hp => hget p (List.mem_cons_of_mem _ hp))
    rw [hget (f, v) (List.mem_cons_self ..)]
    cases hf with
    | single hrep hfits => exact .single hrep (encoded_luaOf hfits)
    | unset hrep htype =>
      rename_i t
      refine .single hrep ?_
      rw [htype, luaOf, fill]
      exact .message rfl (fieldsEncoded_nil S (S.types t))
    | repeated hrep hlen hels =>
      rename_i els
      rw [luaOf, fill, luaElements_eq]
      exact .repeated hrep (.refl _) (by rw [List.length_map]; omega) (by rwa [List.length_map]) (elementsEncoded_luaOf hels)
termination_by sizeOf vs

end

/-! ### The round trip -/

/-- **A message survives the way to Lua and back.** For every message whose strings have no NUL and
whose 64-bit integers lie within `± 2 ^ 53`, on every stack: the decoder succeeds, and the encoder reads
the table it built back into the same message, with unset sub-messages made present and empty. -/
theorem encodeDescriptor_decodeDescriptor (S : Schema) {rt : LuaRuntime} (hnext : rt.AscendingNext)
    (t : ℕ) (m : List ProtoValue) (h : FieldsFit S Scalar.Exact (S.types t) m) :
    ∃ table N, ∀ (L : LuaState) (rest : List LuaValue),
      (decodeDescriptor S (S.types t) m).run { L with stack := .table [] :: rest } =
        (.ok true, { L with stack := table :: rest }) ∧
      ∀ fuel ≥ N, (encodeDescriptor S rt fuel t (S.newMessage t)).run { L with stack := table :: rest } =
        (.ok (true, fillFields S (S.types t) m), { L with stack := table :: rest }) := by
  have hfields : FieldsEncoded S 0 (luaFields S (S.types t) m) (S.types t) (fillFields S (S.types t) m) :=
    fieldsEncoded_luaFields h (tableGet_luaFields (S.names_nodup t))
  refine ⟨.table (luaFields S (S.types t) m), sizeOf (LuaValue.table (luaFields S (S.types t) m)),
    fun L rest => ⟨?_, fun fuel hfuel => ?_⟩⟩
  · have hdecode := decodeDescriptor_extends h (S.names_nodup t) (S.nul_free t) [] (by simp) L rest
    rwa [List.nil_append] at hdecode
  · exact encodeDescriptor_reads S 0 hnext fuel t _ _ (.message rfl hfields) hfuel L rest

/-- A type of trees: `int64 v; string s; repeated Tree k; Tree n`. -/
def treeSchema : Schema where
  types t :=
    if t = 0 then
      [⟨[118], false, .int64⟩, ⟨[115], false, .string⟩, ⟨[107], true, .message 0⟩,
        ⟨[110], false, .message 0⟩]
    else []
  names_nodup t := by split_ifs <;> decide
  nul_free t := by split_ifs <;> decide

/-- A tree with one child, which has defaults only but for its number. -/
def treeMessage : List ProtoValue :=
  [.scalar (.int64 (-5)), .scalar (.string [104, 105]),
    .repeated [.message [.scalar (.int64 7), .scalar (.string []), .repeated [], .unset]],
    .message [.scalar (.int64 0), .scalar (.string []), .repeated [], .unset]]

theorem treeMessage_fits : FieldsFit treeSchema Scalar.Exact (treeSchema.types 0) treeMessage := by
  have hleaf : ∀ n : BitVec 64, |n.toInt| ≤ 2 ^ 53 → Fits treeSchema Scalar.Exact (.message 0)
      (.message [.scalar (.int64 n), .scalar (.string []), .repeated [], .unset]) := fun n hn =>
    .message rfl (.cons (.single rfl (.scalar rfl hn)) (.cons (.single rfl (.scalar rfl nofun))
      (.cons (.repeated rfl (by decide) nofun) (.cons (.unset rfl rfl) .nil))))
  refine .cons (.single rfl (.scalar rfl ?_)) (.cons (.single rfl (.scalar rfl ?_))
    (.cons (.repeated rfl (by decide) ?_) (.cons (.single rfl (hleaf 0 (by decide))) .nil)))
  · show |(-5 : BitVec 64).toInt| ≤ 2 ^ 53
    decide
  · show (0 : Byte) ∉ [104, 105]
    decide
  · intro e he
    rw [List.mem_singleton.1 he]
    exact hleaf 7 (by decide)

/-- The tree comes back with the two sub-messages that were not set. -/
theorem encodeDescriptor_decodeDescriptor_tree :
    ∃ table N, ∀ (L : LuaState) (rest : List LuaValue),
      (decodeDescriptor treeSchema (treeSchema.types 0) treeMessage).run
          { L with stack := .table [] :: rest } = (.ok true, { L with stack := table :: rest }) ∧
      ∀ fuel ≥ N, (encodeDescriptor treeSchema ascendingRuntime fuel 0 (treeSchema.newMessage 0)).run
          { L with stack := table :: rest } =
        (.ok (true, [.scalar (.int64 (-5)), .scalar (.string [104, 105]),
          .repeated [.message [.scalar (.int64 7), .scalar (.string []), .repeated [],
            .message (treeSchema.newMessage 0)]],
          .message [.scalar (.int64 0), .scalar (.string []), .repeated [],
            .message (treeSchema.newMessage 0)]]), { L with stack := table :: rest }) :=
  encodeDescriptor_decodeDescriptor treeSchema ascendingRuntime_ascendingNext 0 treeMessage
    treeMessage_fits

end Slam
