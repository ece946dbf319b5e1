import Slam.Codec.Schema
import Slam.Lua.State

/-!
# `luaT_message_parser.cpp`: from a Lua table to a message

`encodeDescriptor` reads the table on top of the stack into a message, which the source changes in place
through the reflection interface; here it is passed along and returned with the result code. The
recursion into sub-messages follows the tables that a script built, so it is bounded by fuel.

An encoder that fails half-way may leave values on the stack: when an element of a repeated field fails,
`lua_next` has already pushed the next key and value before the loop looks at `rc`.
-/

namespace Slam

/-! ### Scalars -/

/-- `lua_tostring(L, -1)` as the argument of a `std::string`, whose constructor throws on a null
pointer. -/
def readString (rt : LuaRuntime) : LuaM (List Byte) := do
  match rt.tostring (← luaTop) with
  | none => LuaM.fault .logicError
  | some s => do
    -- A number on the stack is replaced by its text.
    luaReplaceTop (.string s)
    return cstring s

/-- The `VALUE` of each scalar type, converted to its `VALUE_TYPE`. -/
def readScalar (rt : LuaRuntime) : FieldType → LuaM Scalar
  | .int32 => do return .int32 (BitVec.ofInt 32 (rt.tointeger (← luaTop)))
  | .int64 => do return .int64 (BitVec.ofInt 64 (rt.tointeger (← luaTop)))
  | .uint32 => do return .uint32 (BitVec.ofInt 32 (rt.tointeger (← luaTop)))
  | .uint64 => do return .uint64 (BitVec.ofInt 64 (rt.tointeger (← luaTop)))
  | .double => do return .double (rt.tonumber (← luaTop))
  | .float => do return .float (rt.tonumber (← luaTop)).convert
  | .bool => do return .bool (← luaTop).toboolean
  | .enum => do return .enum (BitVec.ofInt 32 (rt.tointeger (← luaTop)))
  | .string => do return .string (← readString rt)
  | .message _ => LuaM.fault .assertion

/-! ### Fields -/

/-- `MutableMessage`: the sub-message, which is created if it is not there. -/
def mutableMessage (S : Schema) (t : ℕ) : ProtoValue → List ProtoValue
  | .message vs => vs
  | _ => S.newMessage t

/-- The elements of a repeated field. -/
def elements : ProtoValue → List ProtoValue
  | .repeated es => es
  | _ => []

/-- The encoder of messages of a type, from the fields that the message already has. -/
abbrev MessageEncoder := ℕ → List ProtoValue → LuaM (Bool × List ProtoValue)

variable (S : Schema) (rt : LuaRuntime) (sub : MessageEncoder)

/-- `encodeFieldRepeated` on a field with the elements `es`. -/
def encodeFieldRepeated (type : FieldType) (es : List ProtoValue) :
    LuaM (Bool × List ProtoValue) := do
  if (← luaTop).isNil then return (true, es)
  match type with
  | .message t => do
    -- `AddMessage` has appended the element before the encoder can fail.
    let (rc, vs) ← sub t (S.newMessage t)
    return (rc, es ++ [.message vs])
  | type => do
    let v ← readScalar rt type
    return (true, es ++ [.scalar v])

/-- `encodeFieldSimple` on a field with the value `v`. -/
def encodeFieldSimple (type : FieldType) (v : ProtoValue) : LuaM (Bool × ProtoValue) := do
  if (← luaTop).isNil then return (true, v)
  match type with
  | .message t => do
    let (rc, vs) ← sub t (mutableMessage S t v)
    return (rc, .message vs)
  | type => do
    let v ← readScalar rt type
    return (true, .scalar v)

/-- `lua_next` takes the last key off the stack. A sub-message that failed may have left a table in its
place, which is no key of the table that is visited. -/
def luaTakeKey : LuaM Unit := fun L =>
  match L.stack with
  | [] => (.error .badIndex, L)
  | .table _ :: _ => (.error .luaError, L)
  | _ :: vs => (.ok (), { L with stack := vs })

theorem run_luaTakeKey {v : LuaValue} (hv : v.isTable = false) (L : LuaState) (vs : List LuaValue) :
    luaTakeKey.run { L with stack := v :: vs } = (.ok (), { L with stack := vs }) := by
  cases v with
  | table es => cases hv
  | nil | boolean | number | string | function | object => rfl

/-- The `lua_next` loop of `encodeField` over the entries that are still to come. `lua_next` takes the
last key off the stack, and pushes the next key and its value unless there is none. -/
def encodeElements (type : FieldType) (rc : Bool) :
    LuaEntries → List ProtoValue → LuaM (Bool × List ProtoValue)
  | [], es => do
    luaTakeKey
    return (rc, es)
  | (k, v) :: entries, es => do
    luaTakeKey
    luaPush (.ofKey k)
    luaPush v
    -- Only now does the loop condition look at `rc`.
    if rc then do
      let (rc, es) ← encodeFieldRepeated S rt sub type es
      luaPop 1
      encodeElements type rc entries es
    else return (rc, es)

/-- `encodeField` on a field with the value `v`. -/
def encodeField (f : FieldDescriptor) (v : ProtoValue) : LuaM (Bool × ProtoValue) := do
  luaPushstring f.name
  luaGettable
  if f.repeated then do
    let (rc, es) ← match ← luaTop with
      | .table entries => do
        luaPushnil
        encodeElements S rt sub f.type true (rt.next entries) (elements v)
      | _ => pure (true, elements v)
    -- After a failed element this takes off the value of the next one, and not the table.
    luaPop 1
    return (rc, .repeated es)
  else do
    let (rc, v) ← encodeFieldSimple S rt sub f.type v
    luaPop 1
    return (rc, v)

/-- The loop of `encodeDescriptor` over the fields. -/
def encodeFields : List FieldDescriptor → List ProtoValue → LuaM (Bool × List ProtoValue)
  | f :: fs, v :: vs => do
    let (rc, v) ← encodeField S rt sub f v
    if rc then do
      let (rc, vs) ← encodeFields fs vs
      return (rc, v :: vs)
    else return (rc, v :: vs)
  | _, vs => pure (true, vs)

/-- `encodeDescriptor`. -/
def encodeDescriptor : ℕ → MessageEncoder
  | 0, _, _ => LuaM.fault .outOfFuel
  | fuel + 1, t, vs => do
    if (← luaTop).isTable then encodeFields S rt (encodeDescriptor fuel) (S.types t) vs
    else return (false, vs)

end Slam
