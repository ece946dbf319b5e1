import Slam.Lua.Value

/-!
# The Lua stack and the C API

`LuaState` is what C code can reach through a `lua_State`: the stack (top first), the globals and the
registry entries under string names. `LuaM` is C code that works on it. A fault leaves the state as it
was when it happened, since neither `longjmp` nor a C++ exception unwinds the Lua stack.

Below each API function stands the equation that runs it on a stack of the shape it needs; these
equations are the simp set with which code is executed in the proofs.
-/

namespace Slam

/-- The state behind a `lua_State *`. -/
structure LuaState where
  stack : List LuaValue
  globals : List Byte → LuaValue
  registry : List Byte → LuaValue

/-- Ways in which C code may not return: an error raised by Lua, a C++ exception, an assertion or a
misuse of the protobuf reflection interface, a misuse of the Lua API, and the recursion bound of the
model. -/
inductive LuaFault
  | luaError
  | logicError
  | assertion
  | badIndex
  | outOfFuel
  deriving DecidableEq

/-- C code over a Lua state. -/
def LuaM (α : Type) : Type := LuaState → Except LuaFault α × LuaState

namespace LuaM

variable {α β : Type}

/-- Run it. -/
def run (x : LuaM α) (L : LuaState) : Except LuaFault α × LuaState := x L

instance : Monad LuaM where
  pure a := fun L => (.ok a, L)
  bind x f := fun L =>
    match x L with
    | (.ok a, L') => f a L'
    | (.error e, L') => (.error e, L')

/-- Leave with a fault. -/
def fault (e : LuaFault) : LuaM α := fun L => (.error e, L)

/-- `catch (std::exception& e)`, with the value to return then. Only C++ exceptions are caught. -/
def catchException (x : LuaM α) (a : α) : LuaM α := fun L =>
  match x L with
  | (.error .logicError, L') => (.ok a, L')
  | r => r

theorem run_catchException_of_ok {x : LuaM α} {L L' : LuaState} {b : α}
    (h : x.run L = (.ok b, L')) (a : α) : (x.catchException a).run L = (.ok b, L') := by
  rw [run] at h
  rw [run, catchException, h]

@[simp] theorem run_pure (a : α) (L : LuaState) : (pure a : LuaM α).run L = (.ok a, L) := rfl

@[simp] theorem run_fault (e : LuaFault) (L : LuaState) :
    (fault e : LuaM α).run L = (.error e, L) := rfl

theorem run_bind (x : LuaM α) (f : α → LuaM β) (L : LuaState) :
    (x >>= f).run L =
      match x.run L with
      | (.ok a, L') => (f a).run L'
      | (.error e, L') => (.error e, L') := rfl

/-- A step that succeeds, then the rest. -/
theorem run_bind_of_ok {x : LuaM α} {f : α → LuaM β} {L L' : LuaState} {a : α}
    (h : x.run L = (.ok a, L')) : (x >>= f).run L = (f a).run L' := by
  rw [run_bind, h]

@[simp] theorem run_ite (c : Prop) [Decidable c] (x y : LuaM α) (L : LuaState) :
    (if c then x else y).run L = if c then x.run L else y.run L := by
  split_ifs <;> rfl

end LuaM

/-! ### Pushing and popping -/

/-- Push a value. -/
def luaPush (v : LuaValue) : LuaM Unit := fun L => (.ok (), { L with stack := v :: L.stack })

/-- `lua_pop`. -/
def luaPop (n : ℕ) : LuaM Unit := fun L =>
  if n ≤ L.stack.length then (.ok (), { L with stack := L.stack.drop n }) else (.error .badIndex, L)

/-- The value on top of the stack. -/
def luaTop : LuaM LuaValue := fun L =>
  match L.stack with
  | [] => (.error .badIndex, L)
  | v :: _ => (.ok v, L)

/-- The value under `n` others, at index `-(n + 1)`. -/
def luaIndex (n : ℕ) : LuaM LuaValue := fun L =>
  match L.stack[n]? with
  | none => (.error .badIndex, L)
  | some v => (.ok v, L)

/-- `lua_insert(L, -(n + 1))`: the value on top goes below the `n` values under it. -/
def luaInsert (n : ℕ) : LuaM Unit := fun L =>
  match L.stack with
  | [] => (.error .badIndex, L)
  | v :: vs =>
    if n ≤ vs.length then (.ok (), { L with stack := vs.take n ++ v :: vs.drop n })
    else (.error .badIndex, L)

/-- Replace the value on top of the stack. -/
def luaReplaceTop (v : LuaValue) : LuaM Unit := fun L =>
  match L.stack with
  | [] => (.error .badIndex, L)
  | _ :: vs => (.ok (), { L with stack := v :: vs })

/-- `lua_pushnil`. -/
def luaPushnil : LuaM Unit := luaPush .nil

/-- `lua_pushinteger`: the integer as a double. -/
def luaPushinteger (n : ℤ) : LuaM Unit := luaPush (.number (BinaryFloat.ofInt n))

/-- `lua_pushnumber`. -/
def luaPushnumber (x : Double) : LuaM Unit := luaPush (.number x)

/-- `lua_pushboolean`. -/
def luaPushboolean (b : Bool) : LuaM Unit := luaPush (.boolean b)

/-- `lua_pushstring` takes a C string. -/
def luaPushstring (s : List Byte) : LuaM Unit := luaPush (.string (cstring s))

/-- `lua_newtable`. -/
def luaNewtable : LuaM Unit := luaPush (.table [])

/-! ### Tables -/

/-- `lua_gettable(L, -2)`: the key on top is replaced by its value in the table below. -/
def luaGettable : LuaM Unit := fun L =>
  match L.stack with
  | k :: .table es :: vs =>
    (.ok (), { L with stack := ((k.toKey.map (tableGet es)).getD .nil) :: .table es :: vs })
  | _ :: _ :: _ => (.error .luaError, L)
  | _ => (.error .badIndex, L)

/-- `lua_settable(L, -3)`: the value on top goes under the key below it into the table below that. -/
def luaSettable : LuaM Unit := fun L =>
  match L.stack with
  | v :: k :: .table es :: vs =>
    match k.toKey with
    | none => (.error .luaError, L)
    | some k => (.ok (), { L with stack := .table (tableSet es k v) :: vs })
  | _ :: _ :: _ :: _ => (.error .luaError, L)
  | _ => (.error .badIndex, L)

/-- `lua_getglobal`. -/
def luaGetglobal (name : List Byte) : LuaM Unit := fun L =>
  (.ok (), { L with stack := L.globals (cstring name) :: L.stack })

/-- `lua_pushstring` and `lua_gettable(L, LUA_REGISTRYINDEX)`. -/
def luaGetregistry (name : List Byte) : LuaM Unit := fun L =>
  (.ok (), { L with stack := L.registry (cstring name) :: L.stack })

section Equations

variable (L : LuaState) (vs : List LuaValue)

@[simp] theorem run_luaPush (v : LuaValue) :
    (luaPush v).run L = (.ok (), { L with stack := v :: L.stack }) := rfl

@[simp] theorem run_luaPushnil :
    luaPushnil.run L = (.ok (), { L with stack := .nil :: L.stack }) := rfl

@[simp] theorem run_luaPushinteger (n : ℤ) :
    (luaPushinteger n).run L =
      (.ok (), { L with stack := .number (BinaryFloat.ofInt n) :: L.stack }) := rfl

@[simp] theorem run_luaPushnumber (x : Double) :
    (luaPushnumber x).run L = (.ok (), { L with stack := .number x :: L.stack }) := rfl

@[simp] theorem run_luaPushboolean (b : Bool) :
    (luaPushboolean b).run L = (.ok (), { L with stack := .boolean b :: L.stack }) := rfl

@[simp] theorem run_luaPushstring (s : List Byte) :
    (luaPushstring s).run L = (.ok (), { L with stack := .string (cstring s) :: L.stack }) := rfl

@[simp] theorem run_luaNewtable :
    luaNewtable.run L = (.ok (), { L with stack := .table [] :: L.stack }) := rfl

@[simp] theorem run_luaGetglobal (name : List Byte) :
    (luaGetglobal name).run L =
      (.ok (), { L with stack := L.globals (cstring name) :: L.stack }) := rfl

@[simp] theorem run_luaGetregistry (name : List Byte) :
    (luaGetregistry name).run L =
      (.ok (), { L with stack := L.registry (cstring name) :: L.stack }) := rfl

theorem run_luaPop (ws : List LuaValue) (globals registry : List Byte → LuaValue) :
    (luaPop ws.length).run ⟨ws ++ vs, globals, registry⟩ = (.ok (), ⟨vs, globals, registry⟩) := by
  simp [LuaM.run, luaPop]

theorem run_luaIndex (ws : List LuaValue) (v : LuaValue) :
    (luaIndex ws.length).run { L with stack := ws ++ v :: vs } =
      (.ok v, { L with stack := ws ++ v :: vs }) := by
  simp [LuaM.run, luaIndex]

theorem run_luaInsert (ws : List LuaValue) (v : LuaValue) :
    (luaInsert ws.length).run { L with stack := v :: (ws ++ vs) } =
      (.ok (), { L with stack := ws ++ v :: vs }) := by
  simp [LuaM.run, luaInsert]

@[simp] theorem run_luaPop_one (v : LuaValue) (globals registry : List Byte → LuaValue) :
    (luaPop 1).run ⟨v :: vs, globals, registry⟩ = (.ok (), ⟨vs, globals, registry⟩) :=
  run_luaPop vs [v] globals registry

@[simp] theorem run_luaTop (v : LuaValue) :
    luaTop.run { L with stack := v :: vs } = (.ok v, { L with stack := v :: vs }) := rfl

@[simp] theorem run_luaReplaceTop (v w : LuaValue) :
    (luaReplaceTop w).run { L with stack := v :: vs } = (.ok (), { L with stack := w :: vs }) := rfl

/-- Reading a field of a table. -/
@[simp] theorem run_luaGettable (s : List Byte) (es : LuaEntries) :
    luaGettable.run { L with stack := .string s :: .table es :: vs } =
      (.ok (), { L with stack := tableGet es (.string s) :: .table es :: vs }) := rfl

/-- Writing a field of a table. -/
theorem run_luaSettable {k : LuaValue} {key : LuaKey} (hk : k.toKey = some key) (v : LuaValue)
    (es : LuaEntries) :
    luaSettable.run { L with stack := v :: k :: .table es :: vs } =
      (.ok (), { L with stack := .table (tableSet es key v) :: vs }) := by
  simp only [LuaM.run, luaSettable, hk]

end Equations

end Slam
