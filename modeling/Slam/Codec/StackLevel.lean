import Slam.Codec.MessageBuilder
import Slam.Codec.TableLaw

/-!
# The height of the Lua stack

`encodeDescriptor` reads the table on top of the stack, and is meant to leave the stack as high as it was. What it
does depends on the first thing in the table that it cannot take. A table in which everything can be taken (`Taken`)
leaves the stack level. So does one that is `Declined`: the first thing that cannot be taken is a sub-message that is
no table, and in every repeated field around it there is no further entry to visit. Otherwise something is left: the
loop over a repeated field pushes the next key and value before it looks at the failure, and a string field that is
neither string nor number throws.

`Obeys` says for a piece of the encoder which of the three happens. The induction is on the fuel, as for what the
encoder reads.
-/

namespace Slam

/-! ### What the encoder can take -/

variable (S : Schema) (rt : LuaRuntime)

mutual

/-- The encoder takes the value for the type: nil is left out, a number or a flag is read from anything, a string from
a string or a number, and a message from a table in which every field can be taken. -/
inductive Taken : FieldType → LuaValue → Prop
  | missing {type : FieldType} : Taken type .nil
  | scalar {type : FieldType} {v : LuaValue} : type ≠ .string → (∀ t, type ≠ .message t) → Taken type v
  | string {v : LuaValue} : (rt.tostring v).isSome → Taken .string v
  | message {t : ℕ} {es : LuaEntries} : (∀ f ∈ S.types t, FieldTaken f (tableGet es (.string f.name))) →
      Taken (.message t) (.table es)

/-- The encoder takes what stands under the name of a field. A repeated field that is no table is left out. -/
inductive FieldTaken : FieldDescriptor → LuaValue → Prop
  | single {f : FieldDescriptor} {v : LuaValue} : f.repeated = false → Taken f.type v → FieldTaken f v
  | skipped {f : FieldDescriptor} {v : LuaValue} : f.repeated = true → v.isTable = false → FieldTaken f v
  | repeated {f : FieldDescriptor} {es : LuaEntries} : f.repeated = true → (∀ e ∈ rt.next es, Taken f.type e.2) →
      FieldTaken f (.table es)

end

mutual

/-- The first thing that cannot be taken is a sub-message that is no table, and no loop has an entry after it. -/
inductive Declined : FieldType → LuaValue → Prop
  | notTable {t : ℕ} {v : LuaValue} : v.isNil = false → v.isTable = false → Declined (.message t) v
  | message {t : ℕ} {es : LuaEntries} {fs gs : List FieldDescriptor} {f : FieldDescriptor} :
      S.types t = fs ++ f :: gs → (∀ g ∈ fs, FieldTaken S rt g (tableGet es (.string g.name))) →
      FieldDeclined f (tableGet es (.string f.name)) → Declined (.message t) (.table es)

/-- The same of what stands under the name of a field: in a repeated one it is in the last entry. -/
inductive FieldDeclined : FieldDescriptor → LuaValue → Prop
  | single {f : FieldDescriptor} {v : LuaValue} : f.repeated = false → Declined f.type v → FieldDeclined f v
  | last {f : FieldDescriptor} {es es' : LuaEntries} {e : LuaKey × LuaValue} : f.repeated = true →
      rt.next es = es' ++ [e] → (∀ e' ∈ es', Taken S rt f.type e'.2) → Declined f.type e.2 → FieldDeclined f (.table es)

end

/-! ### What a piece of the encoder does with the stack -/

variable {S rt} {α β : Type}

/-- The code returns, with the stack as high as it was. -/
def ReturnsLevel (x : LuaM α) (L : LuaState) : Prop :=
  ∃ a L', x.run L = (.ok a, L') ∧ L'.stack.length = L.stack.length

/-- With `v` on top of the stack, the code returns the result code and leaves what is below `v`, and `v` too if it is
a table. -/
def Keeps (x : LuaM (Bool × α)) (v : LuaValue) (rc : Bool) : Prop :=
  ∀ (L : LuaState) (rest : List LuaValue), ∃ a w, x.run { L with stack := v :: rest } = (.ok (rc, a), { L with stack := w :: rest }) ∧
    (v.isTable = true → w = v)

/-- With the table `v` on top of the stack, the code does not return, or it fails and leaves two values on `v`, of
which the lower one is a table. -/
def Strays (x : LuaM (Bool × α)) (v : LuaValue) : Prop :=
  ∀ (L : LuaState) (rest : List LuaValue), (∃ e L', x.run { L with stack := v :: rest } = (.error e, L')) ∨
    ∃ a u es, x.run { L with stack := v :: rest } = (.ok (false, a), { L with stack := u :: .table es :: v :: rest }) ∧
      v.isTable = true

/-- The code succeeds on what can be taken, fails on what is declined, and leaves something on all else. -/
structure Obeys (x : LuaM (Bool × α)) (v : LuaValue) (taken declined : Prop) : Prop where
  keeps : taken → Keeps x v true
  fails : declined → Keeps x v false
  strays : ¬ taken → ¬ declined → Strays x v

/-- The same of a loop, which takes the key on top off the stack. -/
structure LoopObeys (x : LuaM (Bool × α)) (key : LuaValue) (taken declined : Prop) : Prop where
  keeps : taken → ∀ (L : LuaState) (rest : List LuaValue), ∃ a,
    x.run { L with stack := key :: rest } = (.ok (true, a), { L with stack := rest })
  fails : declined → ∀ (L : LuaState) (rest : List LuaValue), ∃ a,
    x.run { L with stack := key :: rest } = (.ok (false, a), { L with stack := rest })
  strays : ¬ taken → ¬ declined → ∀ (L : LuaState) (rest : List LuaValue),
    (∃ e L', x.run { L with stack := key :: rest } = (.error e, L')) ∨
      ∃ a u w, x.run { L with stack := key :: rest } = (.ok (false, a), { L with stack := u :: w :: rest })

theorem Keeps.map {x : LuaM (Bool × α)} {v : LuaValue} {rc : Bool} (h : Keeps x v rc) (g : α → β) :
    Keeps (do let (rc, a) ← x; return (rc, g a)) v rc := by
  intro L rest
  obtain ⟨a, w, hrun, hw⟩ := h L rest
  refine ⟨g a, w, ?_, hw⟩
  simp only [LuaM.run_bind, hrun, LuaM.run_pure]

theorem Strays.map {x : LuaM (Bool × α)} {v : LuaValue} (h : Strays x v) (g : α → β) :
    Strays (do let (rc, a) ← x; return (rc, g a)) v := by
  intro L rest
  rcases h L rest with ⟨e, L', hrun⟩ | ⟨a, u, es, hrun, hv⟩
  · exact .inl ⟨e, L', by simp only [LuaM.run_bind, hrun]⟩
  · exact .inr ⟨g a, u, es, by simp only [LuaM.run_bind, hrun, LuaM.run_pure], hv⟩

theorem Obeys.map {x : LuaM (Bool × α)} {v : LuaValue} {taken declined : Prop} (h : Obeys x v taken declined) (g : α → β) :
    Obeys (do let (rc, a) ← x; return (rc, g a)) v taken declined where
  keeps htaken := (h.keeps htaken).map g
  fails hdeclined := (h.fails hdeclined).map g
  strays htaken hdeclined := (h.strays htaken hdeclined).map g

theorem Obeys.congr {x : LuaM (Bool × α)} {v : LuaValue} {taken taken' declined declined' : Prop}
    (h : Obeys x v taken declined) (htaken : taken' ↔ taken) (hdeclined : declined' ↔ declined) : Obeys x v taken' declined' := by
  rwa [propext htaken, propext hdeclined]

/-- Code that runs as other code does with `v` on top. -/
theorem Obeys.of_run_eq {x y : LuaM (Bool × α)} {v : LuaValue} {taken declined : Prop}
    (hrun : ∀ (L : LuaState) (rest : List LuaValue), x.run { L with stack := v :: rest } = y.run { L with stack := v :: rest })
    (h : Obeys y v taken declined) : Obeys x v taken declined where
  keeps htaken L rest := by rw [hrun]; exact h.keeps htaken L rest
  fails hdeclined L rest := by rw [hrun]; exact h.fails hdeclined L rest
  strays htaken hdeclined L rest := by rw [hrun]; exact h.strays htaken hdeclined L rest

/-- Nothing is both taken and declined, since the code returns one result code. -/
theorem Keeps.unique {x : LuaM (Bool × α)} {v : LuaValue} (htrue : Keeps x v true) (hfalse : Keeps x v false) : False := by
  obtain ⟨a, w, hrun, -⟩ := htrue ⟨[], fun _ => .nil, fun _ => .nil⟩ []
  obtain ⟨b, w', hrun', -⟩ := hfalse ⟨[], fun _ => .nil, fun _ => .nil⟩ []
  rw [hrun] at hrun'
  cases hrun'

/-- The stack is level exactly on what is taken or declined. -/
theorem Obeys.returnsLevel_iff {x : LuaM (Bool × α)} {v : LuaValue} {taken declined : Prop} (h : Obeys x v taken declined)
    (L : LuaState) (rest : List LuaValue) : ReturnsLevel x { L with stack := v :: rest } ↔ taken ∨ declined := by
  constructor
  · rintro ⟨a, L', hrun, hlevel⟩
    by_contra hnot
    rw [not_or] at hnot
    rcases h.strays hnot.1 hnot.2 L rest with ⟨e, L'', hrun'⟩ | ⟨b, u, es, hrun', -⟩
    · rw [hrun] at hrun'
      cases hrun'
    · rw [hrun] at hrun'
      cases hrun'
      simp only [List.length_cons] at hlevel
      omega
  · intro htaken
    obtain ⟨rc, hkeeps⟩ : ∃ rc, Keeps x v rc := by
      rcases htaken with htaken | hdeclined
      · exact ⟨true, h.keeps htaken⟩
      · exact ⟨false, h.fails hdeclined⟩
    obtain ⟨a, w, hrun, -⟩ := hkeeps L rest
    exact ⟨_, _, hrun, rfl⟩

/-! ### Inversions -/

theorem taken_message_iff {t : ℕ} {es : LuaEntries} : Taken S rt (.message t) (.table es) ↔
    ∀ f ∈ S.types t, FieldTaken S rt f (tableGet es (.string f.name)) := by
  refine ⟨fun h => ?_, .message⟩
  cases h with
  | scalar _ hscalar => exact absurd rfl (hscalar t)
  | message hfields => exact hfields

/-- The fields are taken up to one that is declined. -/
def FirstDeclined (S : Schema) (rt : LuaRuntime) (es : LuaEntries) (fields : List FieldDescriptor) : Prop :=
  ∃ fs f gs, fields = fs ++ f :: gs ∧ (∀ g ∈ fs, FieldTaken S rt g (tableGet es (.string g.name))) ∧
    FieldDeclined S rt f (tableGet es (.string f.name))

theorem firstDeclined_cons {es : LuaEntries} {f : FieldDescriptor} {fs : List FieldDescriptor} :
    FirstDeclined S rt es (f :: fs) ↔ FieldDeclined S rt f (tableGet es (.string f.name)) ∨
      FieldTaken S rt f (tableGet es (.string f.name)) ∧ FirstDeclined S rt es fs := by
  constructor
  · rintro ⟨gs, g, hs, hsplit, hgs, hg⟩
    cases gs with
    | nil =>
      obtain ⟨rfl, rfl⟩ := List.cons.inj hsplit
      exact .inl hg
    | cons g' gs =>
      obtain ⟨rfl, rfl⟩ := List.cons.inj hsplit
      exact .inr ⟨hgs _ (List.mem_cons_self ..), gs, g, hs, rfl, fun f hf => hgs f (List.mem_cons_of_mem _ hf), hg⟩
  · rintro (hf | ⟨hf, gs, g, hs, rfl, hgs, hg⟩)
    · exact ⟨[], f, fs, rfl, by simp, hf⟩
    · exact ⟨f :: gs, g, hs, rfl, List.forall_mem_cons.2 ⟨hf, hgs⟩, hg⟩

theorem declined_message_iff {t : ℕ} {es : LuaEntries} :
    Declined S rt (.message t) (.table es) ↔ FirstDeclined S rt es (S.types t) := by
  constructor
  · intro h
    cases h with
    | notTable _ htable => cases htable
    | message hsplit hfs hf => exact ⟨_, _, _, hsplit, hfs, hf⟩
  · rintro ⟨fs, f, gs, hsplit, hfs, hf⟩
    exact .message hsplit hfs hf

theorem fieldTaken_single_iff {f : FieldDescriptor} (hrep : f.repeated = false) {v : LuaValue} :
    FieldTaken S rt f v ↔ Taken S rt f.type v := by
  refine ⟨fun h => ?_, .single hrep⟩
  cases h with
  | single _ hv => exact hv
  | skipped hrep' | repeated hrep' => rw [hrep] at hrep'; cases hrep'

theorem fieldDeclined_single_iff {f : FieldDescriptor} (hrep : f.repeated = false) {v : LuaValue} :
    FieldDeclined S rt f v ↔ Declined S rt f.type v := by
  refine ⟨fun h => ?_, .single hrep⟩
  cases h with
  | single _ hv => exact hv
  | last hrep' => rw [hrep] at hrep'; cases hrep'

theorem fieldTaken_repeated_iff {f : FieldDescriptor} (hrep : f.repeated = true) {es : LuaEntries} :
    FieldTaken S rt f (.table es) ↔ ∀ e ∈ rt.next es, Taken S rt f.type e.2 := by
  refine ⟨fun h => ?_, .repeated hrep⟩
  cases h with
  | single hrep' => rw [hrep] at hrep'; cases hrep'
  | skipped _ htable => cases htable
  | repeated _ hes => exact hes

/-- The entries are taken up to the last one, which is declined. -/
def LastDeclined (S : Schema) (rt : LuaRuntime) (type : FieldType) (entries : LuaEntries) : Prop :=
  ∃ es e, entries = es ++ [e] ∧ (∀ e' ∈ es, Taken S rt type e'.2) ∧ Declined S rt type e.2

theorem lastDeclined_singleton {type : FieldType} {e : LuaKey × LuaValue} :
    LastDeclined S rt type [e] ↔ Declined S rt type e.2 := by
  constructor
  · rintro ⟨es, e', hsplit, -, he'⟩
    cases es with
    | nil =>
      cases hsplit
      exact he'
    | cons d es => simp at hsplit
  · intro he
    exact ⟨[], e, rfl, by simp, he⟩

theorem lastDeclined_cons {type : FieldType} {e : LuaKey × LuaValue} {entries : LuaEntries} (hne : entries ≠ []) :
    LastDeclined S rt type (e :: entries) ↔ Taken S rt type e.2 ∧ LastDeclined S rt type entries := by
  constructor
  · rintro ⟨es, e', hsplit, hes, he'⟩
    cases es with
    | nil => exact absurd (List.cons.inj hsplit).2 hne
    | cons d es =>
      obtain ⟨rfl, rfl⟩ := List.cons.inj hsplit
      exact ⟨hes _ (List.mem_cons_self ..), es, e', rfl, fun d hd => hes d (List.mem_cons_of_mem _ hd), he'⟩
  · rintro ⟨he, es, e', rfl, hes, he'⟩
    exact ⟨e :: es, e', rfl, List.forall_mem_cons.2 ⟨he, hes⟩, he'⟩

theorem fieldDeclined_repeated_iff {f : FieldDescriptor} (hrep : f.repeated = true) {es : LuaEntries} :
    FieldDeclined S rt f (.table es) ↔ LastDeclined S rt f.type (rt.next es) := by
  constructor
  · intro h
    cases h with
    | single hrep' => rw [hrep] at hrep'; cases hrep'
    | last _ hsplit hes' he => exact ⟨_, _, hsplit, hes', he⟩
  · rintro ⟨es', e, hsplit, hes', he⟩
    exact .last hrep hsplit hes' he

/-! ### The pieces of the encoder -/

/-- The encoder of sub-messages obeys on every value of size up to `n`. -/
def SubObeys (S : Schema) (rt : LuaRuntime) (sub : MessageEncoder) (n : ℕ) : Prop :=
  ∀ t vs v, Conforms S t vs → v.isNil = false → sizeOf v ≤ n →
    Obeys (sub t vs) v (Taken S rt (.message t) v) (Declined S rt (.message t) v)

/-- A scalar is read, unless it is a string that is neither string nor number. -/
theorem readScalar_obeys {type : FieldType} (hscalar : ∀ t, type ≠ .message t) {v : LuaValue} (hnil : v.isNil = false)
    (g : Scalar → α) :
    Obeys (do let s ← readScalar rt type; return (true, g s)) v (Taken S rt type v) (Declined S rt type v) := by
  have hdeclined : ¬ Declined S rt type v := by
    intro h
    cases h with
    | notTable | message => exact hscalar _ rfl
  cases type with
  | message t => exact absurd rfl (hscalar t)
  | string =>
    cases htext : rt.tostring v with
    | none =>
      have htaken : ¬ Taken S rt .string v := by
        intro h
        cases h with
        | missing => cases hnil
        | scalar hstring => exact hstring rfl
        | string hsome => rw [htext] at hsome; cases hsome
      refine ⟨fun h => absurd h htaken, fun h => absurd h hdeclined, 
        fun _ _ L rest => .inl ⟨.logicError, { L with stack := v :: rest }, ?_⟩⟩
      simp only [readScalar, readString, LuaM.run_bind, run_luaTop, htext, LuaM.run_fault]
    | some s =>
      refine ⟨fun _ L rest => ⟨g (.string (cstring s)), .string s, ?_, ?_⟩, fun h => absurd h hdeclined, fun h => absurd (.string ?_) h⟩
      · simp only [readScalar, readString, LuaM.run_bind, run_luaTop, htext, run_luaReplaceTop, LuaM.run_pure]
      · intro htable
        cases v <;> cases htable
        cases htext
      · rw [htext]; rfl
  | int32 | int64 | uint32 | uint64 | double | float | bool | enum =>
    refine ⟨fun _ L rest => ⟨_, v, rfl, fun _ => rfl⟩, fun h => absurd h hdeclined, fun h => absurd (.scalar ?_ ?_) h⟩
    · simp
    · exact hscalar

section Fields

variable {sub : MessageEncoder} {n : ℕ}

theorem obeys_of_nil {x : LuaM (Bool × α)} {type : FieldType} {v : LuaValue} (hnil : v.isNil = true)
    (hx : Keeps x v true) : Obeys x v (Taken S rt type v) (Declined S rt type v) := by
  obtain rfl : v = .nil := by
    cases v <;> cases hnil
    rfl
  refine ⟨fun _ => hx, fun h => ?_, fun h => absurd .missing h⟩
  cases h with
  | notTable hnil' => cases hnil'

/-- A singular field. -/
theorem encodeFieldSimple_obeys (hsub : SubObeys S rt sub n) {f : FieldDescriptor} (hrep : f.repeated = false) {m : ProtoValue}
    (hm : FieldFits S (fun _ => True) f m) {v : LuaValue} (hsize : sizeOf v ≤ n) :
    Obeys (encodeFieldSimple S rt sub f.type m) v (Taken S rt f.type v) (Declined S rt f.type v) := by
  cases hnil : v.isNil with
  | true =>
    refine obeys_of_nil hnil fun L rest => ⟨m, v, ?_, fun _ => rfl⟩
    simp only [encodeFieldSimple, LuaM.run_bind, run_luaTop, hnil, if_true, LuaM.run_pure]
  | false =>
    cases htype : f.type with
    | message t =>
      -- The sub-message is the one that is there, or a new one.
      have hconforms : Conforms S t (mutableMessage S t m) := by
        cases hm with
        | single _ hfits =>
          cases hfits with
          | scalar hscalar => exact absurd (hscalar.trans htype) (Scalar.type_ne_message _ t)
          | message htype' hfields =>
            rw [htype] at htype'
            cases htype'
            exact hfields
        | unset => exact S.newMessage_conforms t
        | repeated hrep' => rw [hrep] at hrep'; cases hrep'
      refine ((hsub t _ v hconforms hnil hsize).map ProtoValue.message).of_run_eq fun L rest => ?_
      simp only [encodeFieldSimple, LuaM.run_bind, run_luaTop, hnil, Bool.false_eq_true, if_false]
    | int32 | int64 | uint32 | uint64 | double | float | bool | enum | string =>
      refine (readScalar_obeys (by nofun) hnil ProtoValue.scalar).of_run_eq fun L rest => ?_
      simp only [encodeFieldSimple, LuaM.run_bind, run_luaTop, hnil, Bool.false_eq_true, if_false]

/-- An element of a repeated field. -/
theorem encodeFieldRepeated_obeys (hsub : SubObeys S rt sub n) (type : FieldType) (es : List ProtoValue) {v : LuaValue}
    (hsize : sizeOf v ≤ n) :
    Obeys (encodeFieldRepeated S rt sub type es) v (Taken S rt type v) (Declined S rt type v) := by
  cases hnil : v.isNil with
  | true =>
    refine obeys_of_nil hnil fun L rest => ⟨es, v, ?_, fun _ => rfl⟩
    simp only [encodeFieldRepeated, LuaM.run_bind, run_luaTop, hnil, if_true, LuaM.run_pure]
  | false =>
    cases type with
    | message t =>
      have hnew := hsub t _ v (S.newMessage_conforms t) hnil hsize
      refine (hnew.map fun vs => es ++ [ProtoValue.message vs]).of_run_eq fun L rest => ?_
      simp only [encodeFieldRepeated, LuaM.run_bind, run_luaTop, hnil, Bool.false_eq_true, if_false]
    | int32 | int64 | uint32 | uint64 | double | float | bool | enum | string =>
      refine (readScalar_obeys (by nofun) hnil fun s => es ++ [ProtoValue.scalar s]).of_run_eq fun L rest => ?_
      simp only [encodeFieldRepeated, LuaM.run_bind, run_luaTop, hnil, Bool.false_eq_true, if_false]

theorem isTable_ofKey (k : LuaKey) : (LuaValue.ofKey k).isTable = false := by
  cases k <;> rfl

/-- The step of the loop at an entry that is taken. -/
theorem run_encodeElements_cons {type : FieldType} {k : LuaKey} {v : LuaValue} (entries : LuaEntries) (done : List ProtoValue)
    (L : LuaState) {key : LuaValue} (hkey : key.isTable = false) (rest : List LuaValue) :
    (encodeElements S rt sub type true ((k, v) :: entries) done).run { L with stack := key :: rest } =
      (do
        let (rc, es) ← encodeFieldRepeated S rt sub type done
        luaPop 1
        encodeElements S rt sub type rc entries es : LuaM _).run { L with stack := v :: .ofKey k :: rest } := by
  simp only [encodeElements, LuaM.run_bind, run_luaTakeKey hkey, run_luaPush, if_true]

/-- After an entry that is taken, the loop goes on. -/
theorem encodeElements_cons_of_taken {type : FieldType} {k : LuaKey} {v : LuaValue} {entries : LuaEntries}
    {done : List ProtoValue} {key : LuaValue} (hkey : key.isTable = false) (htaken : Taken S rt type v)
    (hnot : ¬ Declined S rt type v) (hkeeps : Keeps (encodeFieldRepeated S rt sub type done) v true)
    (hrest : ∀ done, LoopObeys (encodeElements S rt sub type true entries done) (.ofKey k)
      (∀ e ∈ entries, Taken S rt type e.2) (LastDeclined S rt type entries)) :
    LoopObeys (encodeElements S rt sub type true ((k, v) :: entries) done) key
      (∀ e ∈ (k, v) :: entries, Taken S rt type e.2) (LastDeclined S rt type ((k, v) :: entries)) := by
  have hlast : LastDeclined S rt type ((k, v) :: entries) ↔ LastDeclined S rt type entries := by
    by_cases hne : entries = []
    · subst hne
      rw [lastDeclined_singleton]
      refine iff_of_false hnot ?_
      rintro ⟨es, e, hsplit, -⟩
      simp at hsplit
    · rw [lastDeclined_cons hne, and_iff_right htaken]
  rw [List.forall_mem_cons, and_iff_right htaken, hlast]
  have hrun : ∀ (L : LuaState) (rest : List LuaValue), ∃ done', (encodeElements S rt sub type true ((k, v) :: entries) done).run
      { L with stack := key :: rest } =
        (encodeElements S rt sub type true entries done').run { L with stack := .ofKey k :: rest } := by
    intro L rest
    obtain ⟨done', w, hstep, -⟩ := hkeeps L (.ofKey k :: rest)
    refine ⟨done', ?_⟩
    rw [run_encodeElements_cons _ _ L hkey]
    simp only [LuaM.run_bind, hstep, run_luaPop_one]
  refine ⟨fun hall L rest => ?_, fun hlast L rest => ?_, fun hall hlast L rest => ?_⟩ <;>
    obtain ⟨done', heq⟩ := hrun L rest <;> rw [heq]
  · exact (hrest done').keeps hall L rest
  · exact (hrest done').fails hlast L rest
  · exact (hrest done').strays hall hlast L rest

/-- After an entry that is declined, `lua_next` looks for one more. -/
theorem encodeElements_cons_of_declined {type : FieldType} {k : LuaKey} {v : LuaValue} {entries : LuaEntries}
    {done : List ProtoValue} {key : LuaValue} (hkey : key.isTable = false) (hnot : ¬ Taken S rt type v)
    (hdeclined : Declined S rt type v) (hfails : Keeps (encodeFieldRepeated S rt sub type done) v false) :
    LoopObeys (encodeElements S rt sub type true ((k, v) :: entries) done) key
      (∀ e ∈ (k, v) :: entries, Taken S rt type e.2) (LastDeclined S rt type ((k, v) :: entries)) := by
  have hall : ¬ ∀ e ∈ (k, v) :: entries, Taken S rt type e.2 := fun h => hnot (h _ (List.mem_cons_self ..))
  refine ⟨fun h => absurd h hall, fun hlast L rest => ?_, fun _ hlast L rest => .inr ?_⟩ <;>
    obtain ⟨done', w, hstep, -⟩ := hfails L (.ofKey k :: rest) <;> rw [run_encodeElements_cons _ _ L hkey]
  · cases entries with
    | nil =>
      refine ⟨done', ?_⟩
      simp only [LuaM.run_bind, hstep, run_luaPop_one, encodeElements, run_luaTakeKey (isTable_ofKey k), LuaM.run_pure]
    | cons e entries => exact absurd ((lastDeclined_cons (by simp)).1 hlast).1 hnot
  · cases entries with
    | nil => exact absurd (lastDeclined_singleton.2 hdeclined) hlast
    | cons e entries =>
      refine ⟨done', e.2, .ofKey e.1, ?_⟩
      simp only [LuaM.run_bind, hstep, run_luaPop_one, encodeElements, run_luaTakeKey (isTable_ofKey k), run_luaPush,
        Bool.false_eq_true, if_false, LuaM.run_pure]

/-- After an entry that left something, `lua_next` finds a table in the place of the key. -/
theorem encodeElements_cons_of_strays {type : FieldType} {k : LuaKey} {v : LuaValue} {entries : LuaEntries}
    {done : List ProtoValue} {key : LuaValue} (hkey : key.isTable = false) (htaken : ¬ Taken S rt type v)
    (hdeclined : ¬ Declined S rt type v) (hstrays : Strays (encodeFieldRepeated S rt sub type done) v) :
    LoopObeys (encodeElements S rt sub type true ((k, v) :: entries) done) key
      (∀ e ∈ (k, v) :: entries, Taken S rt type e.2) (LastDeclined S rt type ((k, v) :: entries)) := by
  refine ⟨fun h => absurd (h _ (List.mem_cons_self ..)) htaken, fun hlast => ?_, fun _ _ L rest => .inl ?_⟩
  · exfalso
    cases entries with
    | nil => exact hdeclined (lastDeclined_singleton.1 hlast)
    | cons e entries => exact htaken ((lastDeclined_cons (by simp)).1 hlast).1
  · rw [run_encodeElements_cons _ _ L hkey]
    rcases hstrays L (.ofKey k :: rest) with ⟨e, L', hstep⟩ | ⟨done', u, es, hstep, -⟩
    · exact ⟨e, L', by simp only [LuaM.run_bind, hstep]⟩
    · refine ⟨.luaError, { L with stack := .table es :: v :: .ofKey k :: rest }, ?_⟩
      simp only [LuaM.run_bind, hstep, run_luaPop_one]
      cases entries <;> rfl

/-- The loop over a repeated field. -/
theorem encodeElements_obeys (hsub : SubObeys S rt sub n) (type : FieldType) (entries : LuaEntries)
    (hsize : ∀ e ∈ entries, sizeOf e.2 ≤ n) (done : List ProtoValue) {key : LuaValue} (hkey : key.isTable = false) :
    LoopObeys (encodeElements S rt sub type true entries done) key (∀ e ∈ entries, Taken S rt type e.2)
      (LastDeclined S rt type entries) := by
  induction entries generalizing done key with
  | nil =>
    refine ⟨fun _ L rest => ⟨done, ?_⟩, fun h => ?_, fun h => absurd (by simp) h⟩
    · simp only [encodeElements, LuaM.run_bind, run_luaTakeKey hkey, LuaM.run_pure]
    · obtain ⟨es, e, hsplit, -⟩ := h
      exact absurd hsplit (by simp)
  | cons e entries ih =>
    obtain ⟨k, v⟩ := e
    have hobeys := encodeFieldRepeated_obeys hsub type done (hsize (k, v) (List.mem_cons_self ..))
    have hrest := ih fun e he => hsize e (List.mem_cons_of_mem _ he)
    have hexclusive : Taken S rt type v → ¬ Declined S rt type v := fun htaken hdeclined =>
      (hobeys.keeps htaken).unique (hobeys.fails hdeclined)
    by_cases htaken : Taken S rt type v
    · exact encodeElements_cons_of_taken hkey htaken (hexclusive htaken) (hobeys.keeps htaken) fun done =>
        hrest done (isTable_ofKey k)
    · by_cases hdeclined : Declined S rt type v
      · exact encodeElements_cons_of_declined hkey htaken hdeclined (hobeys.fails hdeclined)
      · exact encodeElements_cons_of_strays hkey htaken hdeclined (hobeys.strays htaken hdeclined)

/-- A singular field: its value goes onto the table and is taken off again. -/
theorem encodeField_obeys_of_single (hsub : SubObeys S rt sub n) {f : FieldDescriptor} (hnul : 0 ∉ f.name)
    (hrep : f.repeated = false) {m : ProtoValue} (hm : FieldFits S (fun _ => True) f m) {es : LuaEntries}
    (hsize : sizeOf (tableGet es (.string f.name)) ≤ n) :
    Obeys (encodeField S rt sub f m) (.table es) (FieldTaken S rt f (tableGet es (.string f.name)))
      (FieldDeclined S rt f (tableGet es (.string f.name))) := by
  rw [fieldTaken_single_iff hrep, fieldDeclined_single_iff hrep]
  generalize hget : tableGet es (.string f.name) = v at hsize
  have hobeys := encodeFieldSimple_obeys hsub hrep hm hsize
  have hrun : ∀ (L : LuaState) (rest : List LuaValue), (encodeField S rt sub f m).run { L with stack := .table es :: rest } =
      (do
        let p ← encodeFieldSimple S rt sub f.type m
        luaPop 1
        return p : LuaM _).run { L with stack := v :: .table es :: rest } := by
    intro L rest
    simp only [encodeField, LuaM.run_bind, run_luaPushstring, run_luaGettable, cstring_of_nul_free hnul, hget, hrep,
      Bool.false_eq_true, if_false]
  have hkeeps : ∀ {rc : Bool}, Keeps (encodeFieldSimple S rt sub f.type m) v rc → Keeps (encodeField S rt sub f m) (.table es) rc := by
    intro rc h L rest
    obtain ⟨a, w, hstep, -⟩ := h L (.table es :: rest)
    refine ⟨a, .table es, ?_, fun _ => rfl⟩
    simp only [hrun, LuaM.run_bind, hstep, run_luaPop_one, LuaM.run_pure]
  refine ⟨fun h => hkeeps (hobeys.keeps h), fun h => hkeeps (hobeys.fails h), fun htaken hdeclined L rest => ?_⟩
  rcases hobeys.strays htaken hdeclined L (.table es :: rest) with ⟨e, L', hstep⟩ | ⟨a, u, vs, hstep, htable⟩
  · exact .inl ⟨e, L', by simp only [hrun, LuaM.run_bind, hstep]⟩
  · -- One of the two values is taken off, and the value of the field stays in its place.
    obtain ⟨ws, rfl⟩ : ∃ ws, v = .table ws := by
      cases v <;> cases htable
      exact ⟨_, rfl⟩
    exact .inr ⟨a, .table vs, ws, by simp only [hrun, LuaM.run_bind, hstep, run_luaPop_one, LuaM.run_pure], rfl⟩

/-- A repeated field that is a table: its entries are visited over the table. -/
theorem encodeField_obeys_of_repeated (hsub : SubObeys S rt sub n) {f : FieldDescriptor} (hnul : 0 ∉ f.name)
    (hrep : f.repeated = true) (m : ProtoValue) {es entries : LuaEntries} (hget : tableGet es (.string f.name) = .table entries)
    (hsize : sizeOf (LuaValue.table entries) ≤ n) :
    Obeys (encodeField S rt sub f m) (.table es) (FieldTaken S rt f (.table entries))
      (FieldDeclined S rt f (.table entries)) := by
  rw [fieldTaken_repeated_iff hrep, fieldDeclined_repeated_iff hrep]
  have hsmall : ∀ e ∈ rt.next entries, sizeOf e.2 ≤ n := fun e he =>
    (sizeOf_lt_of_mem_entries ((rt.next_perm entries).mem_iff.1 he)).le.trans hsize
  have hobeys := encodeElements_obeys hsub f.type (rt.next entries) hsmall (elements m) (rfl : LuaValue.nil.isTable = false)
  have hrun : ∀ (L : LuaState) (rest : List LuaValue), (encodeField S rt sub f m).run { L with stack := .table es :: rest } =
      (do
        let (rc, es) ← encodeElements S rt sub f.type true (rt.next entries) (elements m)
        luaPop 1
        return (rc, .repeated es) : LuaM _).run { L with stack := .nil :: .table entries :: .table es :: rest } := by
    intro L rest
    simp only [encodeField, LuaM.run_bind, run_luaPushstring, run_luaGettable, cstring_of_nul_free hnul, hget, hrep,
      if_true, run_luaTop, run_luaPushnil]
  refine ⟨fun h L rest => ?_, fun h L rest => ?_, fun htaken hdeclined L rest => ?_⟩
  · obtain ⟨a, hloop⟩ := hobeys.keeps h L (.table entries :: .table es :: rest)
    exact ⟨.repeated a, .table es, by simp only [hrun, LuaM.run_bind, hloop, run_luaPop_one, LuaM.run_pure], fun _ => rfl⟩
  · obtain ⟨a, hloop⟩ := hobeys.fails h L (.table entries :: .table es :: rest)
    exact ⟨.repeated a, .table es, by simp only [hrun, LuaM.run_bind, hloop, run_luaPop_one, LuaM.run_pure], fun _ => rfl⟩
  · rcases hobeys.strays htaken hdeclined L (.table entries :: .table es :: rest) with ⟨e, L', hloop⟩ | ⟨a, u, w, hloop⟩
    · exact .inl ⟨e, L', by simp only [hrun, LuaM.run_bind, hloop]⟩
    · -- The value of the next entry is taken off; its key and the table stay.
      exact .inr ⟨.repeated a, w, entries, by simp only [hrun, LuaM.run_bind, hloop, run_luaPop_one, LuaM.run_pure], rfl⟩

/-- A field. -/
theorem encodeField_obeys (hsub : SubObeys S rt sub n) {f : FieldDescriptor} (hnul : 0 ∉ f.name) {m : ProtoValue}
    (hm : FieldFits S (fun _ => True) f m) (es : LuaEntries) (hsize : sizeOf (tableGet es (.string f.name)) ≤ n) :
    Obeys (encodeField S rt sub f m) (.table es) (FieldTaken S rt f (tableGet es (.string f.name)))
      (FieldDeclined S rt f (tableGet es (.string f.name))) := by
  cases hrep : f.repeated with
  | false => exact encodeField_obeys_of_single hsub hnul hrep hm hsize
  | true =>
    by_cases htable : ∃ entries, tableGet es (.string f.name) = .table entries
    · obtain ⟨entries, hget⟩ := htable
      rw [hget] at hsize ⊢
      exact encodeField_obeys_of_repeated hsub hnul hrep m hget hsize
    · have hnot : (tableGet es (.string f.name)).isTable = false := by
        generalize tableGet es (.string f.name) = v at htable
        cases v with
        | table entries => exact absurd ⟨entries, rfl⟩ htable
        | nil | boolean | number | string | function | object => rfl
      refine ⟨fun _ L rest => ⟨.repeated (elements m), .table es, ?_, fun _ => rfl⟩, fun h => ?_,
        fun h => absurd (.skipped hrep hnot) h⟩
      · generalize hget : tableGet es (.string f.name) = v at htable
        cases v with
        | table entries => exact absurd ⟨entries, rfl⟩ htable
        | nil | boolean | number | string | function | object =>
          simp only [encodeField, LuaM.run_bind, run_luaPushstring, run_luaGettable, cstring_of_nul_free hnul, hget, hrep,
            if_true, run_luaTop, LuaM.run_pure, run_luaPop_one]
      · exfalso
        generalize tableGet es (.string f.name) = v at htable h
        cases h with
        | single hrep' => rw [hrep] at hrep'; cases hrep'
        | last => exact htable ⟨_, rfl⟩

/-- The fields up to the first one that cannot be taken. -/
theorem encodeFields_obeys (hsub : SubObeys S rt sub n) {fs : List FieldDescriptor} (hnul : ∀ f ∈ fs, 0 ∉ f.name)
    {ms : List ProtoValue} (hms : FieldsFit S (fun _ => True) fs ms) {es : LuaEntries}
    (hsize : sizeOf (LuaValue.table es) ≤ n + 1) :
    Obeys (encodeFields S rt sub fs ms) (.table es) (∀ f ∈ fs, FieldTaken S rt f (tableGet es (.string f.name)))
      (FirstDeclined S rt es fs) := by
  induction fs generalizing ms with
  | nil =>
    cases hms
    refine ⟨fun _ L rest => ⟨[], .table es, rfl, fun _ => rfl⟩, fun h => ?_, fun h => absurd (by simp) h⟩
    obtain ⟨gs, g, hs, hsplit, -⟩ := h
    simp at hsplit
  | cons f fs ih =>
    cases hms with
    | @cons _ m _ ms hm hms =>
      have hsmall := sizeOf_tableGet_lt es (.string f.name)
      have hfield := encodeField_obeys hsub (hnul f (List.mem_cons_self ..)) hm es (by omega)
      have hrest := ih (fun g hg => hnul g (List.mem_cons_of_mem _ hg)) hms
      rw [List.forall_mem_cons, firstDeclined_cons]
      by_cases htaken : FieldTaken S rt f (tableGet es (.string f.name))
      · have hnot : ¬ FieldDeclined S rt f (tableGet es (.string f.name)) := fun hdeclined =>
          (hfield.keeps htaken).unique (hfield.fails hdeclined)
        rw [and_iff_right htaken, or_iff_right hnot, and_iff_right htaken]
        -- The table is still on top, and the loop goes on with it.
        have hrun : ∀ (L : LuaState) (rest : List LuaValue), ∃ m', (encodeFields S rt sub (f :: fs) (m :: ms)).run
            { L with stack := .table es :: rest } =
              (do let (rc, vs) ← encodeFields S rt sub fs ms; return (rc, m' :: vs) : LuaM _).run
                { L with stack := .table es :: rest } := by
          intro L rest
          obtain ⟨m', w, hstep, hw⟩ := hfield.keeps htaken L rest
          rw [hw rfl] at hstep
          exact ⟨m', by simp only [encodeFields, LuaM.run_bind, hstep, if_true]⟩
        refine ⟨fun h L rest => ?_, fun h L rest => ?_, fun hall hdeclined L rest => ?_⟩ <;>
          obtain ⟨m', heq⟩ := hrun L rest <;> rw [heq]
        · exact (hrest.keeps h).map (m' :: ·) L rest
        · exact (hrest.fails h).map (m' :: ·) L rest
        · exact (hrest.strays hall hdeclined).map (m' :: ·) L rest
      · rw [iff_false_intro htaken, false_and, false_and, or_false]
        refine ⟨False.elim, fun hdeclined L rest => ?_, fun _ hdeclined L rest => ?_⟩
        · obtain ⟨m', w, hstep, hw⟩ := hfield.fails hdeclined L rest
          refine ⟨m' :: ms, w, ?_, hw⟩
          simp only [encodeFields, LuaM.run_bind, hstep, Bool.false_eq_true, if_false, LuaM.run_pure]
        · rcases hfield.strays htaken hdeclined L rest with ⟨e, L', hstep⟩ | ⟨m', u, vs, hstep, htable⟩
          · exact .inl ⟨e, L', by simp only [encodeFields, LuaM.run_bind, hstep]⟩
          · refine .inr ⟨m' :: ms, u, vs, ?_, htable⟩
            simp only [encodeFields, LuaM.run_bind, hstep, Bool.false_eq_true, if_false, LuaM.run_pure]

end Fields

/-- The encoder obeys on every value of size up to its fuel. -/
theorem encodeDescriptor_obeys (S : Schema) (rt : LuaRuntime) (fuel : ℕ) : SubObeys S rt (encodeDescriptor S rt fuel) fuel := by
  induction fuel with
  | zero =>
    intro t vs v _ _ hsize
    cases v <;> simp at hsize
  | succ fuel ih =>
    intro t vs v hvs hnil hsize
    cases htable : v.isTable with
    | false =>
      refine ⟨fun h => ?_, fun _ L rest => ⟨vs, v, ?_, fun _ => rfl⟩, fun _ h => absurd (.notTable hnil htable) h⟩
      · exfalso
        cases h with
        | missing => cases hnil
        | scalar _ hscalar => exact hscalar t rfl
        | message => cases htable
      · simp only [encodeDescriptor, LuaM.run_bind, run_luaTop, htable, Bool.false_eq_true, if_false, LuaM.run_pure]
    | true =>
      obtain ⟨es, rfl⟩ : ∃ es, v = .table es := by
        cases v <;> cases htable
        exact ⟨_, rfl⟩
      refine ((encodeFields_obeys ih (S.nul_free t) hvs hsize).congr taken_message_iff declined_message_iff).of_run_eq
        fun L rest => ?_
      simp only [encodeDescriptor, LuaM.run_bind, run_luaTop, LuaValue.isTable, if_true]

/-! ### The discipline of the codec -/

/-- `lua_settable` does not return unless it is applied to a table. -/
theorem table_of_luaSettable {L L' : LuaState} {u : Unit} (h : luaSettable.run L = (.ok u, L')) :
    ∃ v k es rest, L.stack = v :: k :: .table es :: rest := by
  simp only [LuaM.run, luaSettable] at h
  split at h
  · rename_i v k es rest hstack
    exact ⟨v, k, es, rest, hstack⟩
  · cases h
  · cases h

/-- `luaT_message_parser_decode` pushes one table and returns true, or returns false and leaves the stack as it is. -/
theorem decode_pushes_table {S : Schema} (pb : Protobuf S) (messages : ℤ → Option ℕ) (msgid : ℤ) (buf : List Byte)
    (L : LuaState) :
    (∃ m es, (luaTMessageParserDecode pb messages msgid buf).run L =
      (.ok (some m), { L with stack := .table es :: L.stack })) ∨
    (luaTMessageParserDecode pb messages msgid buf).run L = (.ok none, L) := by
  cases h : parsed pb messages msgid buf with
  | none => exact .inr (run_luaTMessageParserDecode_of_none pb h L)
  | some p => exact .inl ⟨p.2, _, run_luaTMessageParserDecode_of_some pb h L⟩

theorem fieldFits_of_mem_zip {S : Schema} {P : Scalar → Prop} {fs : List FieldDescriptor} {vs : List ProtoValue}
    (h : FieldsFit S P fs vs) {p : FieldDescriptor × ProtoValue} (hp : p ∈ fs.zip vs) : FieldFits S P p.1 p.2 := by
  induction fs generalizing vs with
  | nil => simp at hp
  | cons f fs ih =>
    cases h with
    | cons hf hfs =>
      rw [List.zip_cons_cons, List.mem_cons] at hp
      rcases hp with rfl | hp
      · exact hf
      · exact ih hfs hp

/-- **The encoder leaves the stack level exactly on tables that are taken, or declined without a further entry.** For
every message type, every message of it, every value and every stack below it: with fuel for the depth of the value,
`encodeDescriptor` returns with the stack as high as on entry if and only if the value is taken or declined, and so
does `encodeField` on what stands under its name. The decoder never fails, so that each of its `lua_settable` is
applied to a table; it pushes one table when it returns true and leaves the stack when it returns false. -/
theorem codec_level_iff (S : Schema) (rt : LuaRuntime) (t : ℕ) {vs : List ProtoValue} (hvs : Conforms S t vs) (v : LuaValue) :
    (∃ N, ∀ fuel ≥ N, ∀ (L : LuaState) (rest : List LuaValue),
      (ReturnsLevel (encodeDescriptor S rt fuel t vs) { L with stack := v :: rest } ↔
        Taken S rt (.message t) v ∨ Declined S rt (.message t) v)) ∧
    (∀ es, v = .table es → ∃ N, ∀ fuel ≥ N, ∀ p ∈ (S.types t).zip vs, ∀ (L : LuaState) (rest : List LuaValue),
      (ReturnsLevel (encodeField S rt (encodeDescriptor S rt fuel) p.1 p.2) { L with stack := v :: rest } ↔
        FieldTaken S rt p.1 (tableGet es (.string p.1.name)) ∨ FieldDeclined S rt p.1 (tableGet es (.string p.1.name)))) ∧
    (∀ (L L' : LuaState) (u : Unit), luaSettable.run L = (.ok u, L') → ∃ v k es rest, L.stack = v :: k :: .table es :: rest) ∧
    (∀ (pb : Protobuf S) (messages : ℤ → Option ℕ) (msgid : ℤ) (buf : List Byte) (L : LuaState),
      (∃ m es, (luaTMessageParserDecode pb messages msgid buf).run L =
        (.ok (some m), { L with stack := .table es :: L.stack })) ∨
      (luaTMessageParserDecode pb messages msgid buf).run L = (.ok none, L)) := by
  refine ⟨⟨sizeOf v, fun fuel hfuel L rest => ?_⟩, ?_, fun L L' u => table_of_luaSettable, decode_pushes_table⟩
  · cases hnil : v.isNil with
    | true =>
      -- A nil is left out where a field may be missing; here it is a table that is not there.
      obtain rfl : v = .nil := by
        cases v <;> cases hnil
        rfl
      refine iff_of_true ⟨(false, vs), _, ?_, rfl⟩ (.inl .missing)
      obtain ⟨fuel, rfl⟩ : ∃ n, fuel = n + 1 := ⟨fuel - 1, by simp at hfuel; omega⟩
      simp only [encodeDescriptor, LuaM.run_bind, run_luaTop, LuaValue.isTable, Bool.false_eq_true, if_false, LuaM.run_pure]
    | false => exact (encodeDescriptor_obeys S rt fuel t vs v hvs hnil hfuel).returnsLevel_iff L rest
  · rintro es rfl
    refine ⟨sizeOf (LuaValue.table es), fun fuel hfuel p hp L rest => ?_⟩
    have hsmall := sizeOf_tableGet_lt es (.string p.1.name)
    have hfield := encodeField_obeys (encodeDescriptor_obeys S rt fuel) (S.nul_free t p.1 (List.of_mem_zip hp).1)
      (fieldFits_of_mem_zip hvs hp) es (by omega)
    exact hfield.returnsLevel_iff L rest

/-- A tree whose fields are all of the right kind is taken. -/
theorem codec_level_treeTable : ∃ N, ∀ fuel ≥ N, ∀ (L : LuaState) (rest : List LuaValue),
    ReturnsLevel (encodeDescriptor treeSchema ascendingRuntime fuel 0 (treeSchema.newMessage 0))
      { L with stack := .table treeTable :: rest } := by
  obtain ⟨N, hN⟩ := (codec_level_iff treeSchema ascendingRuntime 0 (treeSchema.newMessage_conforms 0) (.table treeTable)).1
  refine ⟨N, fun fuel hfuel L rest => (hN fuel hfuel L rest).2 (.inl ?_)⟩
  have hleaf : Taken treeSchema ascendingRuntime (.message 0) (.table leafTable) :=
    .message (forall_treeFields (.single rfl (.scalar nofun nofun)) (.single rfl .missing) (.skipped rfl rfl)
      (.single rfl .missing))
  exact .message (forall_treeFields (.single rfl (.scalar nofun nofun)) (.single rfl (.string rfl)) (.skipped rfl rfl)
    (.single rfl hleaf))

/-- `{ k = { 5, {} } }`: the first child is no table, and a second one follows. -/
def strayTable : LuaEntries :=
  [(.string [107], .table (luaSequence 1 [.number (BinaryFloat.ofInt 5), .table []]))]

theorem strayTable_not_taken_not_declined : ¬ Taken treeSchema ascendingRuntime (.message 0) (.table strayTable) ∧
    ¬ Declined treeSchema ascendingRuntime (.message 0) (.table strayTable) := by
  have hnext : ascendingRuntime.next (luaSequence 1 [.number (BinaryFloat.ofInt 5), .table []]) =
      luaSequence 1 [.number (BinaryFloat.ofInt 5), .table []] :=
    next_luaSequence ascendingRuntime_ascendingNext (.refl _) (by decide)
  have hfive : ¬ Taken treeSchema ascendingRuntime (.message 0) (.number (BinaryFloat.ofInt 5)) := by
    intro h
    cases h with
    | scalar _ hscalar => exact hscalar 0 rfl
  have hchildren : ¬ FieldTaken treeSchema ascendingRuntime ⟨[107], true, .message 0⟩ (tableGet strayTable (.string [107])) := by
    intro h
    refine hfive ((fieldTaken_repeated_iff rfl).1 h (indexKey 1, _) ?_)
    rw [hnext]
    exact List.mem_cons_self ..
  refine ⟨fun h => hchildren (taken_message_iff.1 h ⟨[107], true, .message 0⟩ (by decide)), fun h => ?_⟩
  obtain ⟨fs, f, gs, hsplit, hfs, hf⟩ := declined_message_iff.1 h
  -- Only the field with the children has something that cannot be taken, and there it is not the last entry.
  have hmem : f ∈ treeSchema.types 0 := by rw [hsplit]; simp
  revert hf
  refine forall_treeFields (P := fun f => ¬ FieldDeclined treeSchema ascendingRuntime f (tableGet strayTable (.string f.name)))
    ?_ ?_ ?_ ?_ f hmem
  · rw [fieldDeclined_single_iff rfl]
    nofun
  · rw [fieldDeclined_single_iff rfl]
    nofun
  · intro hk
    have hlast := (fieldDeclined_repeated_iff rfl).1 hk
    rw [hnext] at hlast
    exact hfive ((lastDeclined_cons (by simp [luaSequence])).1 hlast).1
  · rw [fieldDeclined_single_iff rfl]
    intro hn
    cases hn with
    | notTable hnil => cases hnil

/-- The encoder does not leave the stack level on it. -/
theorem not_codec_level_strayTable : ¬ ∃ N, ∀ fuel ≥ N, ∀ (L : LuaState) (rest : List LuaValue),
    ReturnsLevel (encodeDescriptor treeSchema ascendingRuntime fuel 0 (treeSchema.newMessage 0))
      { L with stack := .table strayTable :: rest } := by
  rintro ⟨N, hN⟩
  obtain ⟨htaken, hdeclined⟩ := strayTable_not_taken_not_declined
  have hobeys := encodeDescriptor_obeys treeSchema ascendingRuntime (max N (sizeOf (LuaValue.table strayTable))) 0
    (treeSchema.newMessage 0) (.table strayTable) (treeSchema.newMessage_conforms 0) rfl (le_max_right ..)
  have hlevel := hN _ (le_max_left N (sizeOf (LuaValue.table strayTable))) ⟨[], fun _ => .nil, fun _ => .nil⟩ []
  exact ((hobeys.returnsLevel_iff _ _).1 hlevel).elim htaken hdeclined

end Slam
