import Slam.Codec.RoundTrip

/-!
# Table to message to table

A script builds a table for a message type (`TableFits`), the encoder reads it, and the decoder makes a table of
the message again. `Yields` says that the second table is the first one with what was missing filled in.

Two things do not come back. A repeated field is read from the keys `1, …, n` and written under the keys
`0, …, n - 1`, and a string is cut at its first NUL. A table comes back exactly if it has neither (`Plain`).
-/

namespace Slam

/-! ### Tables of a type -/

mutual

/-- The value is one that a script may write for the type: a scalar of the type, or a table of fields. -/
inductive TableFits (S : Schema) : FieldType → LuaValue → Prop
  | scalar {type : FieldType} {v : Scalar} : v.type = type → v.Within → TableFits S type v.raw
  | message {type : FieldType} {t : ℕ} {es : LuaEntries} : type = .message t → (es.map Prod.fst).Nodup →
      (∀ k ∈ es.map Prod.fst, ∃ f ∈ S.types t, k = .string f.name) →
      (∀ f ∈ S.types t, FieldTableFits S f (tableGet es (.string f.name))) → TableFits S type (.table es)

/-- What a script may write for a field: nothing, a value, or a sequence with the keys `1, …, n`. -/
inductive FieldTableFits (S : Schema) : FieldDescriptor → LuaValue → Prop
  | missing {f : FieldDescriptor} : FieldTableFits S f .nil
  | single {f : FieldDescriptor} {v : LuaValue} : f.repeated = false → TableFits S f.type v → FieldTableFits S f v
  | repeated {f : FieldDescriptor} {es : LuaEntries} {vs : List LuaValue} : f.repeated = true → vs.length < 2 ^ 31 →
      es.Perm (luaSequence 1 vs) → (∀ v ∈ vs, TableFits S f.type v) → FieldTableFits S f (.table es)

end

/-- What stands for a field that is missing: the default of a scalar, or an empty table. -/
def FieldDescriptor.missingValue (f : FieldDescriptor) : LuaValue :=
  if f.repeated then .table []
  else
    match f.type with
    | .int32 | .int64 | .uint32 | .uint64 | .enum | .double | .float => .number (BinaryFloat.ofInt 0)
    | .bool => .boolean false
    | .string => .string []
    | .message _ => .table []

mutual

/-- The second value is the first one with what is missing filled in. -/
inductive Yields (S : Schema) : FieldType → LuaValue → LuaValue → Prop
  | scalar {type : FieldType} {v : LuaValue} : (∀ t, type ≠ .message t) → Yields S type v v
  | message {type : FieldType} {t : ℕ} {es ds : LuaEntries} : type = .message t →
      (∀ f ∈ S.types t, FieldYields S f (tableGet es (.string f.name)) (tableGet ds (.string f.name))) →
      (∀ k, (∀ f ∈ S.types t, k ≠ .string f.name) → tableGet ds k = .nil) → Yields S type (.table es) (.table ds)

/-- The same of what stands in two tables under the name of a field. -/
inductive FieldYields (S : Schema) : FieldDescriptor → LuaValue → LuaValue → Prop
  | missing {f : FieldDescriptor} : FieldYields S f .nil f.missingValue
  | single {f : FieldDescriptor} {v d : LuaValue} : f.repeated = false → v ≠ .nil → Yields S f.type v d →
      FieldYields S f v d
  | repeated {f : FieldDescriptor} {es ds : LuaEntries} : f.repeated = true →
      (∀ k, tableGet es k = .nil ↔ tableGet ds k = .nil) →
      (∀ k, tableGet es k ≠ .nil → Yields S f.type (tableGet es k) (tableGet ds k)) →
      FieldYields S f (.table es) (.table ds)

end

mutual

/-- No string has a NUL, and no repeated field has an element. -/
inductive Plain (S : Schema) : FieldType → LuaValue → Prop
  | scalar {type : FieldType} {v : LuaValue} : (∀ t, type ≠ .message t) → (∀ s, v = .string s → 0 ∉ s) → Plain S type v
  | message {type : FieldType} {t : ℕ} {es : LuaEntries} : type = .message t →
      (∀ f ∈ S.types t, FieldPlain S f (tableGet es (.string f.name))) → Plain S type (.table es)

/-- The same of what stands under the name of a field. -/
inductive FieldPlain (S : Schema) : FieldDescriptor → LuaValue → Prop
  | missing {f : FieldDescriptor} : FieldPlain S f .nil
  | single {f : FieldDescriptor} {v : LuaValue} : f.repeated = false → Plain S f.type v → FieldPlain S f v
  | empty {f : FieldDescriptor} : f.repeated = true → FieldPlain S f (.table [])

end

/-- The encoder reads the table to a message, and the decoder makes of that message a table that yields the first
one. -/
def RoundTrips (S : Schema) (rt : LuaRuntime) (fuel t : ℕ) (v : LuaValue) : Prop :=
  ∃ m d, (∀ (L : LuaState) (rest : List LuaValue),
      (encodeDescriptor S rt fuel t (S.newMessage t)).run { L with stack := v :: rest } =
        (.ok (true, m), { L with stack := v :: rest }) ∧
      (decodeDescriptor S (S.types t) m).run { L with stack := .table [] :: rest } =
        (.ok true, { L with stack := d :: rest })) ∧
    Yields S (.message t) v d

/-! ### The message of a table -/

variable {S : Schema}

/-- The elements of a sequence have their messages, if each of them has. -/
theorem exists_elementsEncoded {type : FieldType} {vs : List LuaValue} (h : ∀ v ∈ vs, ∃ m, Encoded S 1 type v m) :
    ∃ ms, ElementsEncoded S 1 type vs ms := by
  induction vs with
  | nil => exact ⟨[], .nil⟩
  | cons v vs ih =>
    obtain ⟨m, hm⟩ := h v (List.mem_cons_self ..)
    obtain ⟨ms, hms⟩ := ih fun w hw => h w (List.mem_cons_of_mem _ hw)
    exact ⟨m :: ms, .cons hm hms⟩

theorem exists_fieldsEncoded {es : LuaEntries} {fs : List FieldDescriptor}
    (h : ∀ f ∈ fs, ∃ m, FieldEncoded S 1 f (tableGet es (.string f.name)) m) : ∃ ms, FieldsEncoded S 1 es fs ms := by
  induction fs with
  | nil => exact ⟨[], .nil⟩
  | cons f fs ih =>
    obtain ⟨m, hm⟩ := h f (List.mem_cons_self ..)
    obtain ⟨ms, hms⟩ := ih fun g hg => h g (List.mem_cons_of_mem _ hg)
    exact ⟨m :: ms, .cons hm hms⟩

/-- Every table of a type is read to a message. -/
theorem exists_encoded (n : ℕ) : ∀ {type : FieldType} {v : LuaValue}, sizeOf v ≤ n → TableFits S type v →
    ∃ m, Encoded S 1 type v m := by
  induction n with
  | zero =>
    intro type v hsize
    cases v <;> simp at hsize
  | succ n ih =>
    intro type v hsize h
    cases h with
    | scalar htype hwithin => exact ⟨_, .scalar htype hwithin⟩
    | @message _ t es htype _ _ hfields =>
      obtain ⟨ms, hms⟩ : ∃ ms, FieldsEncoded S 1 es (S.types t) ms := by
        refine exists_fieldsEncoded fun f hf => ?_
        have hsmall := sizeOf_tableGet_lt es (.string f.name)
        have hfield := hfields f hf
        generalize tableGet es (.string f.name) = w at hsmall hfield
        cases hfield with
        | missing => exact ⟨_, .missing⟩
        | single hrep hw =>
          obtain ⟨m, hm⟩ := ih (by omega) hw
          exact ⟨m, .single hrep hm⟩
        | @repeated _ entries vs hrep hlen hperm hvs =>
          obtain ⟨ms, hms⟩ : ∃ ms, ElementsEncoded S 1 f.type vs ms := by
            refine exists_elementsEncoded fun v hv => ih ?_ (hvs v hv)
            obtain ⟨k, hk⟩ := mem_luaSequence 1 hv
            have := sizeOf_lt_of_mem_entries (hperm.mem_iff.2 hk)
            omega
          exact ⟨_, .repeated hrep hperm (by omega) hlen hms⟩
      exact ⟨_, .message htype hms⟩

mutual

/-- What is read is a message of the type. -/
theorem Encoded.fits {start : ℕ} {type : FieldType} {v : LuaValue} {m : ProtoValue} (h : Encoded S start type v m) :
    Fits S (fun _ => True) type m := by
  cases h with
  | @scalar _ v htype _ => exact .scalar (v.type_cut.trans htype) trivial
  | message htype hfields => exact .message htype hfields.fits
termination_by sizeOf m

theorem ElementsEncoded.fits {start : ℕ} {type : FieldType} {vs : List LuaValue} {ms : List ProtoValue}
    (h : ElementsEncoded S start type vs ms) : ms.length = vs.length ∧ ∀ m ∈ ms, Fits S (fun _ => True) type m := by
  cases h with
  | nil => exact ⟨rfl, nofun⟩
  | cons hm hms =>
    have hfit := hm.fits
    obtain ⟨hlength, hfits⟩ := hms.fits
    exact ⟨by rw [List.length_cons, List.length_cons, hlength], List.forall_mem_cons.2 ⟨hfit, hfits⟩⟩
termination_by sizeOf ms

theorem FieldsEncoded.fits {start : ℕ} {es : LuaEntries} {fs : List FieldDescriptor} {ms : List ProtoValue}
    (h : FieldsEncoded S start es fs ms) : FieldsFit S (fun _ => True) fs ms := by
  cases h with
  | nil => exact .nil
  | @cons _ f m fs ms hm hms =>
    refine .cons ?_ hms.fits
    generalize tableGet es (.string f.name) = w at hm
    cases hm with
    | missing => exact f.default_fits S
    | single hrep hw => exact .single hrep hw.fits
    | repeated hrep _ _ hlen hels =>
      obtain ⟨hlength, hfits⟩ := hels.fits
      exact .repeated hrep (hlength ▸ hlen) hfits
termination_by sizeOf ms

end

/-! ### What comes back -/

theorem luaOf_default (S : Schema) (f : FieldDescriptor) : luaOf S f.type f.default = f.missingValue := by
  obtain ⟨name, rep, type⟩ := f
  cases rep with
  | true => rfl
  | false =>
    cases type with
    | float =>
      show LuaValue.number (BinaryFloat.convert (BinaryFloat.ofInt 0)) = .number (BinaryFloat.ofInt 0)
      rw [BinaryFloat.convert_ofInt_zero]
    | int32 | int64 | uint32 | uint64 | double | bool | enum | string | message => rfl

/-- A scalar comes back unless it is a string with a NUL. -/
theorem luaScalar_cut_eq_raw_iff (v : Scalar) : luaScalar v.cut = v.raw ↔ ∀ s, v.raw = .string s → 0 ∉ s := by
  cases v with
  | string s =>
    constructor
    · intro h s' hs'
      cases hs'
      have hcut : cstring (cstring s) = s := LuaValue.string.inj h
      -- The cut is a part of the string without a NUL.
      have hnul : ∀ l : List Byte, 0 ∉ cstring l := fun l hmem => by
        simpa using List.mem_takeWhile_imp hmem
      rw [← hcut]
      exact hnul _
    · intro h
      have hcut : cstring s = s := cstring_of_nul_free (h s rfl)
      rw [Scalar.cut, Scalar.raw, luaScalar, hcut, hcut]
  | int32 | int64 | uint32 | uint64 | double | float | bool | enum =>
    refine ⟨fun _ s hs => ?_, fun _ => rfl⟩
    cases hs

/-- The key `0` is none of those that a script gives to a sequence. -/
theorem tableGet_zero_of_perm {es : LuaEntries} {vs : List LuaValue} (hperm : es.Perm (luaSequence 1 vs))
    (hlen : 1 + vs.length ≤ 2 ^ 31) : tableGet es (indexKey 0) = .nil := by
  refine tableGet_of_not_mem fun hmem => ?_
  obtain ⟨e, he, hkey⟩ := List.mem_map.1 hmem
  obtain ⟨i, hi, hindex⟩ := index?_of_mem_luaSequence hlen (hperm.mem_iff.1 he)
  rw [hkey, index?_indexKey (by norm_num)] at hindex
  have := Option.some.inj hindex
  omega

/-- A field that is not repeated, or has no element, comes back if what stands there does. -/
theorem fieldYields_iff {f : FieldDescriptor} {v : LuaValue} {m : ProtoValue} (h : FieldEncoded S 1 f v m)
    (hsub : Encoded S 1 f.type v m → (Yields S f.type v (luaOf S f.type m) ↔ Plain S f.type v)) :
    FieldYields S f v (luaOf S f.type m) ↔ FieldPlain S f v := by
  cases h with
  | missing =>
    rw [luaOf_default]
    exact iff_of_true .missing .missing
  | single hrep hv =>
    have hnil := hv.not_nil
    constructor
    · intro hyields
      refine .single hrep ((hsub hv).1 ?_)
      generalize luaOf S f.type m = d at hyields
      cases hyields with
      | missing => cases hnil
      | single _ _ hd => exact hd
      | repeated hrep' => rw [hrep] at hrep'; cases hrep'
    · intro hplain
      refine .single hrep (by rintro rfl; cases hnil) ((hsub hv).2 ?_)
      cases hplain with
      | missing => cases hnil
      | single _ hv => exact hv
      | empty hrep' => rw [hrep] at hrep'; cases hrep'
  | @repeated _ es vs ms hrep hperm hlen _ hms =>
    rw [luaOf]
    cases hms with
    | nil =>
      have hes : es = [] := hperm.eq_nil
      subst hes
      exact iff_of_true (.repeated hrep (fun _ => Iff.rfl) fun k hk => absurd rfl hk) (.empty hrep)
    | @cons _ v m vs ms hv _ =>
      -- The first element comes back under the key `0`, where there was nothing.
      refine iff_of_false (fun hyields => ?_) fun hplain => ?_
      · have hget : tableGet (luaElements S f.type 0 (m :: ms)) (indexKey 0) = luaOf S f.type m := by
          simp [luaElements, tableGet]
        cases hyields with
        | single hrep' => rw [hrep] at hrep'; cases hrep'
        | repeated _ hkeys _ =>
          have hnil := (hkeys (indexKey 0)).1 (tableGet_zero_of_perm hperm hlen)
          have hnot := luaOf_not_nil S f.type m
          rw [← hget, hnil] at hnot
          cases hnot
      · cases hplain with
        | single hrep' => rw [hrep] at hrep'; cases hrep'
        | empty => exact absurd hperm.symm.eq_nil (List.cons_ne_nil _ _)

theorem FieldsEncoded.exists_of_mem {start : ℕ} {es : LuaEntries} {fs : List FieldDescriptor} {ms : List ProtoValue}
    (h : FieldsEncoded S start es fs ms) {f : FieldDescriptor} (hf : f ∈ fs) :
    ∃ m, (f, m) ∈ fs.zip ms ∧ FieldEncoded S start f (tableGet es (.string f.name)) m := by
  induction fs generalizing ms with
  | nil => cases hf
  | cons g fs ih =>
    cases h with
    | cons hm hms =>
      rcases List.mem_cons.1 hf with rfl | hf
      · exact ⟨_, List.mem_cons_self .., hm⟩
      · obtain ⟨m, hmem, hm⟩ := ih hms hf
        exact ⟨m, List.mem_cons_of_mem _ hmem, hm⟩

/-- A value comes back exactly if it is plain. -/
theorem yields_luaOf_iff (n : ℕ) : ∀ {type : FieldType} {v : LuaValue} {m : ProtoValue}, sizeOf v ≤ n →
    Encoded S 1 type v m → (Yields S type v (luaOf S type m) ↔ Plain S type v) := by
  induction n with
  | zero =>
    intro type v m hsize
    cases v <;> simp at hsize
  | succ n ih =>
    intro type v m hsize h
    cases h with
    | @scalar _ v htype _ =>
      have hscalar : ∀ t, type ≠ .message t := by
        rintro t rfl
        exact v.type_ne_message t htype
      have hback := luaScalar_cut_eq_raw_iff v
      rw [luaOf]
      constructor
      · intro hyields
        refine .scalar hscalar (hback.1 ?_)
        generalize luaScalar v.cut = d at hyields ⊢
        generalize v.raw = w at hyields ⊢
        cases hyields with
        | scalar => rfl
        | message ht => exact absurd ht (hscalar _)
      · intro hplain
        rw [hback.2 ?_]
        · exact .scalar hscalar
        · generalize v.raw = w at hplain
          cases hplain with
          | scalar _ hnul => exact hnul
          | message ht => exact absurd ht (hscalar _)
    | @message _ t es ms htype hfields =>
      subst htype
      rw [luaOf]
      have hfield : ∀ f ∈ S.types t,
          (FieldYields S f (tableGet es (.string f.name)) (tableGet (luaFields S (S.types t) ms) (.string f.name)) ↔
            FieldPlain S f (tableGet es (.string f.name))) := by
        intro f hf
        obtain ⟨m, hmem, hm⟩ := hfields.exists_of_mem hf
        have hsmall := sizeOf_tableGet_lt es (.string f.name)
        rw [show tableGet (luaFields S (S.types t) ms) (.string f.name) = luaOf S f.type m from
          tableGet_luaFields (S.names_nodup t) (f, m) hmem]
        exact fieldYields_iff hm (ih (by omega))
      constructor
      · intro hyields
        cases hyields with
        | scalar hscalar => exact absurd rfl (hscalar t)
        | message ht hback _ =>
          cases ht
          exact .message rfl fun f hf => (hfield f hf).1 (hback f hf)
      · intro hplain
        cases hplain with
        | scalar hscalar => exact absurd rfl (hscalar t)
        | message ht hback =>
          cases ht
          refine .message rfl (fun f hf => (hfield f hf).2 (hback f hf)) fun k hk => tableGet_of_not_mem fun hmem => ?_
          rw [luaFields_eq_map, List.map_map] at hmem
          obtain ⟨p, hp, rfl⟩ := List.mem_map.1 hmem
          exact hk p.1 (List.of_mem_zip hp).1 rfl

/-! ### The law -/

/-- With fuel for its depth, the table is encoded to a message that is known, and that message is decoded. -/
theorem roundTrips_iff_of_fuel {rt : LuaRuntime} (hnext : rt.AscendingNext) {t : ℕ} {v : LuaValue}
    (h : TableFits S (.message t) v) {fuel : ℕ} (hfuel : sizeOf v ≤ fuel) :
    RoundTrips S rt fuel t v ↔ Plain S (.message t) v := by
  obtain ⟨m, hm⟩ := exists_encoded (sizeOf v) le_rfl h
  have hiff := yields_luaOf_iff (sizeOf v) le_rfl hm
  have hfits := hm.fits
  cases hm with
  | @scalar _ v htype _ => exact absurd htype (v.type_ne_message t)
  | @message _ _ es ms htype hfields =>
    cases htype
    have hencode := encodeDescriptor_reads S 1 hnext fuel t _ _ (.message rfl hfields) hfuel
    have hdecode : ∀ (L : LuaState) (rest : List LuaValue),
        (decodeDescriptor S (S.types t) ms).run { L with stack := .table [] :: rest } =
          (.ok true, { L with stack := luaOf S (.message t) (.message ms) :: rest }) := by
      intro L rest
      have hextends := decodeDescriptor_extends hfields.fits (S.names_nodup t) (S.nul_free t) [] (by simp) L rest
      rwa [List.nil_append] at hextends
    rw [← hiff]
    constructor
    · rintro ⟨ms', d, hruns, hyields⟩
      -- Both runs are known, so the message and the table are those.
      obtain ⟨hencode', hdecode'⟩ := hruns ⟨[], fun _ => .nil, fun _ => .nil⟩ []
      rw [hencode] at hencode'
      cases hencode'
      rw [hdecode] at hdecode'
      cases hdecode'
      exact hyields
    · intro hyields
      exact ⟨ms, _, fun L rest => ⟨hencode L rest, hdecode L rest⟩, hyields⟩

/-- **A table comes back exactly if no string in it has a NUL and no repeated field has an element.** For every
message type and every table of that type, with fuel for its depth: the table is encoded and the message decoded
to a table that is the first one with what was missing filled in, if and only if the table is plain. -/
theorem roundTrips_iff_plain (S : Schema) {rt : LuaRuntime} (hnext : rt.AscendingNext) (t : ℕ) {v : LuaValue}
    (h : TableFits S (.message t) v) :
    ∃ N, ∀ fuel ≥ N, (RoundTrips S rt fuel t v ↔ Plain S (.message t) v) :=
  ⟨sizeOf v, fun _ hfuel => roundTrips_iff_of_fuel hnext h hfuel⟩

/-- The four fields of a tree. -/
theorem forall_treeFields {P : FieldDescriptor → Prop} (hv : P ⟨[118], false, .int64⟩) (hs : P ⟨[115], false, .string⟩)
    (hk : P ⟨[107], true, .message 0⟩) (hn : P ⟨[110], false, .message 0⟩) : ∀ f ∈ treeSchema.types 0, P f := by
  intro f hf
  rcases hf with _ | ⟨_, _ | ⟨_, _ | ⟨_, _ | ⟨_, hf⟩⟩⟩⟩
  · exact hv
  · exact hs
  · exact hk
  · exact hn
  · cases hf

/-- A table of a tree, from what stands under the names. -/
theorem tableFits_tree {es : LuaEntries} (hnodup : (es.map Prod.fst).Nodup)
    (hkeys : ∀ k ∈ es.map Prod.fst, k ∈ (treeSchema.types 0).map fun f => LuaKey.string f.name)
    (hfields : ∀ f ∈ treeSchema.types 0, FieldTableFits treeSchema f (tableGet es (.string f.name))) :
    TableFits treeSchema (.message 0) (.table es) := by
  refine .message rfl hnodup (fun k hmem => ?_) hfields
  obtain ⟨f, hf, hname⟩ := List.mem_map.1 (hkeys k hmem)
  exact ⟨f, hf, hname.symm⟩

/-- `{ v = 7 }`. -/
def leafTable : LuaEntries := [(.string [118], Scalar.raw (.int64 7))]

/-- `{ v = -5, s = "hi", n = { v = 7 } }`. -/
def treeTable : LuaEntries :=
  [(.string [118], Scalar.raw (.int64 (-5))), (.string [115], .string [104, 105]), (.string [110], .table leafTable)]

theorem leafTable_fits : TableFits treeSchema (.message 0) (.table leafTable) := by
  have hseven : |(7 : BitVec 64).toInt| ≤ 2 ^ 53 := by decide
  refine tableFits_tree (by decide) (by decide) (forall_treeFields ?_ .missing .missing .missing)
  exact .single rfl (.scalar (v := .int64 7) rfl hseven)

theorem treeTable_fits : TableFits treeSchema (.message 0) (.table treeTable) := by
  have hfive : |(-5 : BitVec 64).toInt| ≤ 2 ^ 53 := by decide
  refine tableFits_tree (by decide) (by decide) (forall_treeFields ?_ ?_ .missing (.single rfl leafTable_fits))
  · exact .single rfl (.scalar (v := .int64 (-5)) rfl hfive)
  · exact .single rfl (.scalar (v := .string [104, 105]) rfl trivial)

theorem treeTable_plain : Plain treeSchema (.message 0) (.table treeTable) := by
  have hleaf : Plain treeSchema (.message 0) (.table leafTable) :=
    .message rfl (forall_treeFields (.single rfl (.scalar nofun nofun)) .missing .missing .missing)
  refine .message rfl (forall_treeFields ?_ ?_ .missing (.single rfl hleaf))
  · exact .single rfl (.scalar nofun nofun)
  · refine .single rfl (.scalar nofun fun s hs => ?_)
    cases hs
    decide

/-- The tree comes back. -/
theorem roundTrips_treeTable : ∃ N, ∀ fuel ≥ N, RoundTrips treeSchema ascendingRuntime fuel 0 (.table treeTable) := by
  obtain ⟨N, hN⟩ := roundTrips_iff_plain treeSchema ascendingRuntime_ascendingNext 0 treeTable_fits
  exact ⟨N, fun fuel hfuel => (hN fuel hfuel).2 treeTable_plain⟩

/-- `{ k = { [1] = { v = 7 } } }`. -/
def parentTable : LuaEntries := [(.string [107], .table [(indexKey 1, .table leafTable)])]

/-- `{ s = "a\0b" }`. -/
def nulTable : LuaEntries := [(.string [115], .string [97, 0, 98])]

theorem parentTable_fits : TableFits treeSchema (.message 0) (.table parentTable) := by
  refine tableFits_tree (by decide) (by decide) (forall_treeFields .missing .missing ?_ .missing)
  have hsequence : List.Perm [(indexKey 1, .table leafTable)] (luaSequence 1 [.table leafTable]) := .refl _
  exact .repeated rfl (by decide) hsequence (by simpa using leafTable_fits)

theorem nulTable_fits : TableFits treeSchema (.message 0) (.table nulTable) := by
  refine tableFits_tree (by decide) (by decide) (forall_treeFields .missing ?_ .missing .missing)
  exact .single rfl (.scalar (v := .string [97, 0, 98]) rfl trivial)

theorem parentTable_not_plain : ¬ Plain treeSchema (.message 0) (.table parentTable) := by
  intro h
  cases h with
  | scalar hscalar => exact hscalar 0 rfl
  | message ht hfields =>
    cases ht
    cases hfields ⟨[107], true, .message 0⟩ (by decide) with
    | single hrep => cases hrep

theorem nulTable_not_plain : ¬ Plain treeSchema (.message 0) (.table nulTable) := by
  intro h
  cases h with
  | scalar hscalar => exact hscalar 0 rfl
  | message ht hfields =>
    cases ht
    cases hfields ⟨[115], false, .string⟩ (by decide) with
    | single _ hplain =>
      cases hplain with
      | scalar _ hnul => exact hnul [97, 0, 98] rfl (by decide)

/-- Neither a child nor a NUL comes back. -/
theorem not_roundTrips_parentTable_nulTable :
    (TableFits treeSchema (.message 0) (.table parentTable) ∧
      ¬ ∃ N, ∀ fuel ≥ N, RoundTrips treeSchema ascendingRuntime fuel 0 (.table parentTable)) ∧
    (TableFits treeSchema (.message 0) (.table nulTable) ∧
      ¬ ∃ N, ∀ fuel ≥ N, RoundTrips treeSchema ascendingRuntime fuel 0 (.table nulTable)) := by
  have hnot : ∀ {v : LuaValue}, TableFits treeSchema (.message 0) v → ¬ Plain treeSchema (.message 0) v →
      ¬ ∃ N, ∀ fuel ≥ N, RoundTrips treeSchema ascendingRuntime fuel 0 v := by
    rintro v hfits hplain ⟨N, hN⟩
    have hback := hN (max N (sizeOf v)) (le_max_left ..)
    exact hplain ((roundTrips_iff_of_fuel ascendingRuntime_ascendingNext hfits (le_max_right ..)).1 hback)
  exact ⟨⟨parentTable_fits, hnot parentTable_fits parentTable_not_plain⟩,
    nulTable_fits, hnot nulTable_fits nulTable_not_plain⟩

end Slam
