import Slam.Lua.Value

/-!
# Protobuf descriptors and messages

A schema gives the fields of each message type; a field may be of any message type, also its own, so a
schema describes trees of unbounded depth. The names of a type's fields are distinct and are C strings,
which the descriptor pool guarantees.

A message is the list of the values of its fields, in the order of the descriptor. `Fits` says that a
value has the type its field declares; it takes a condition on scalars as a parameter, so that it also
says "and all scalars in it are such that …".
-/

namespace Slam

/-! ### Descriptors -/

/-- The `CPPTYPE_*` of a field; a sub-message field names its message type. -/
inductive FieldType
  | int32
  | int64
  | uint32
  | uint64
  | double
  | float
  | bool
  | enum
  | string
  | message (type : ℕ)
  deriving DecidableEq

/-- `FieldDescriptor`. -/
structure FieldDescriptor where
  name : List Byte
  repeated : Bool
  type : FieldType
  deriving DecidableEq

/-- A descriptor pool. -/
structure Schema where
  types : ℕ → List FieldDescriptor
  names_nodup : ∀ t, ((types t).map FieldDescriptor.name).Nodup
  nul_free : ∀ t, ∀ f ∈ types t, 0 ∉ f.name

/-! ### Messages -/

/-- A scalar. -/
inductive Scalar
  | int32 (v : BitVec 32)
  | int64 (v : BitVec 64)
  | uint32 (v : BitVec 32)
  | uint64 (v : BitVec 64)
  | double (x : Double)
  | float (x : Single)
  | bool (b : Bool)
  | enum (v : BitVec 32)
  | string (s : List Byte)
  deriving DecidableEq

/-- The value of a field, or of an element of a repeated field. `unset` is a singular sub-message that
is not present. -/
inductive ProtoValue
  | scalar (v : Scalar)
  | unset
  | message (fields : List ProtoValue)
  | repeated (elements : List ProtoValue)

/-- The type of a scalar. -/
def Scalar.type : Scalar → FieldType
  | int32 _ => .int32
  | int64 _ => .int64
  | uint32 _ => .uint32
  | uint64 _ => .uint64
  | double _ => .double
  | float _ => .float
  | bool _ => .bool
  | enum _ => .enum
  | string _ => .string

theorem Scalar.type_ne_message (v : Scalar) (t : ℕ) : v.type ≠ .message t := by
  cases v <;> nofun

/-- The default of a scalar type. -/
def FieldType.defaultScalar : FieldType → Option Scalar
  | int32 => some (.int32 0)
  | int64 => some (.int64 0)
  | uint32 => some (.uint32 0)
  | uint64 => some (.uint64 0)
  | double => some (.double (BinaryFloat.ofInt 0))
  | float => some (.float (BinaryFloat.ofInt 0))
  | bool => some (.bool false)
  | enum => some (.enum 0)
  | string => some (.string [])
  | message _ => none

/-- The value that a field has in a new message. -/
def FieldDescriptor.default (f : FieldDescriptor) : ProtoValue :=
  if f.repeated then .repeated []
  else
    match f.type.defaultScalar with
    | some v => .scalar v
    | none => .unset

theorem FieldDescriptor.default_message {f : FieldDescriptor} {t : ℕ} (hrep : f.repeated = false)
    (htype : f.type = .message t) : f.default = .unset := by
  rw [FieldDescriptor.default, hrep, htype]
  rfl

theorem FieldDescriptor.default_repeated {f : FieldDescriptor} (hrep : f.repeated = true) :
    f.default = .repeated [] := by
  rw [FieldDescriptor.default, hrep]
  rfl

/-- A new message, or one after `Clear`. -/
def Schema.newMessage (S : Schema) (t : ℕ) : List ProtoValue :=
  (S.types t).map FieldDescriptor.default

/-- `Reflection::HasField` of a singular proto3 field: false exactly on unset sub-messages and on
scalars that have the default value. -/
def hasField : ProtoValue → Bool
  | .scalar v => some v ≠ v.type.defaultScalar
  | .unset => false
  | .message _ => true
  | .repeated _ => false

/-! ### Messages of a type -/

mutual

/-- The value is one of the given type, and its scalars satisfy `P`. -/
inductive Fits (S : Schema) (P : Scalar → Prop) : FieldType → ProtoValue → Prop
  | scalar {type : FieldType} {v : Scalar} : v.type = type → P v → Fits S P type (.scalar v)
  | message {type : FieldType} {t : ℕ} {vs : List ProtoValue} :
      type = .message t → FieldsFit S P (S.types t) vs → Fits S P type (.message vs)

/-- The value is one of the given field. A repeated field has at most `INT_MAX` elements. -/
inductive FieldFits (S : Schema) (P : Scalar → Prop) : FieldDescriptor → ProtoValue → Prop
  | single {f : FieldDescriptor} {v : ProtoValue} :
      f.repeated = false → Fits S P f.type v → FieldFits S P f v
  | unset {f : FieldDescriptor} {t : ℕ} :
      f.repeated = false → f.type = .message t → FieldFits S P f .unset
  | repeated {f : FieldDescriptor} {es : List ProtoValue} :
      f.repeated = true → es.length < 2 ^ 31 → (∀ e ∈ es, Fits S P f.type e) →
      FieldFits S P f (.repeated es)

/-- The values are those of a message with the given fields. -/
inductive FieldsFit (S : Schema) (P : Scalar → Prop) : List FieldDescriptor → List ProtoValue → Prop
  | nil : FieldsFit S P [] []
  | cons {f : FieldDescriptor} {v : ProtoValue} {fs : List FieldDescriptor} {vs : List ProtoValue} :
      FieldFits S P f v → FieldsFit S P fs vs → FieldsFit S P (f :: fs) (v :: vs)

end

/-- The values are those of a message of type `t`. -/
abbrev Conforms (S : Schema) (t : ℕ) (vs : List ProtoValue) : Prop :=
  FieldsFit S (fun _ => True) (S.types t) vs

theorem FieldType.type_of_defaultScalar {t : FieldType} {v : Scalar} (h : t.defaultScalar = some v) :
    v.type = t := by
  cases t <;> cases h <;> rfl

theorem FieldType.eq_message_of_defaultScalar {t : FieldType} (h : t.defaultScalar = none) :
    ∃ m, t = .message m := by
  cases t with
  | message m => exact ⟨m, rfl⟩
  | int32 | int64 | uint32 | uint64 | double | float | bool | enum | string => cases h

theorem FieldDescriptor.default_fits (S : Schema) (f : FieldDescriptor) :
    FieldFits S (fun _ => True) f f.default := by
  unfold FieldDescriptor.default
  split_ifs with hrep
  · exact .repeated hrep (by norm_num) nofun
  · rw [Bool.not_eq_true] at hrep
    split
    · rename_i v hv
      exact .single hrep (.scalar (FieldType.type_of_defaultScalar hv) trivial)
    · rename_i hnone
      obtain ⟨t, ht⟩ := FieldType.eq_message_of_defaultScalar hnone
      exact .unset hrep ht

/-- A new message is one of its type. -/
theorem Schema.newMessage_conforms (S : Schema) (t : ℕ) : Conforms S t (S.newMessage t) := by
  unfold Conforms Schema.newMessage
  induction S.types t with
  | nil => exact .nil
  | cons f fs ih => exact .cons (f.default_fits S) ih

end Slam
