import Slam.Lua.State
import Slam.Protocol.Registry

/-!
# `slam_lua_pcall` and the events of `slam_lua_event.c`

The script's side of a call is a `CallOutcome`: whether the function returned or raised, the value it
left (the result, or the error as the handler passed it on), and the globals and the registry as the
script left them. A Lua function has a stack frame of its own, so it does not reach what lies below.

`slam_lua_pcall` takes its function and arguments off the stack on every path (`run_slamLuaPcall`). The
events do not: one that does not find its handler returns with what it looked up still on the stack.
-/

namespace Slam

/-- What a call of a Lua function does. -/
structure CallOutcome where
  raised : Bool
  value : LuaValue
  globals : List Byte → LuaValue
  registry : List Byte → LuaValue

/-- `lua_pcall(L, args, 1, traceback)`; the error code is whether the function raised. -/
def luaPcall (outcome : CallOutcome) (args : ℕ) : LuaM Bool := fun L =>
  if args + 1 ≤ L.stack.length then
    (.ok outcome.raised, ⟨outcome.value :: L.stack.drop (args + 1), outcome.globals, outcome.registry⟩)
  else (.error .badIndex, L)

/-- `slam_lua_pcall` with a null `lvalue`. -/
def slamLuaPcall (outcome : CallOutcome) (args : ℕ) : LuaM Bool := do
  if (← luaIndex args).isFunction then do
    luaGetglobal (asciiBytes "__G_TRACKBACK__")
    let traceback ← if (← luaTop).isFunction then do
        luaInsert (args + 1)
        pure true
      else do
        luaPop 1
        pure false
    if ← luaPcall outcome args then do
      luaPop (if traceback then 2 else 1)
      return false
    else do
      luaPop 1
      if traceback then luaPop 1
      return true
  else do
    luaPop (args + 1)
    return false

/-! ### Events -/

/-- The handler of an event with the descriptor of a connection. -/
def slamLuaEventConnection (handler : List Byte) (outcome : CallOutcome) (fd : ℤ) : LuaM Bool := do
  luaGetglobal handler
  if (← luaTop).isFunction then do
    luaPushinteger fd
    slamLuaPcall outcome 1
  else return false

/-- The handler of `slam_lua_event_establish_connection`. -/
def establishHandler : List Byte := asciiBytes "slam_lua_event_establish_connection"

/-- The handler of `slam_lua_event_lost_connection`. -/
def lostHandler : List Byte := asciiBytes "slam_lua_event_lost_connection"

/-- `slam_lua_event_establish_connection`. -/
def slamLuaEventEstablishConnection : CallOutcome → ℤ → LuaM Bool :=
  slamLuaEventConnection establishHandler

/-- `slam_lua_event_lost_connection`. -/
def slamLuaEventLostConnection : CallOutcome → ℤ → LuaM Bool :=
  slamLuaEventConnection lostHandler

/-- `slam_lua_event_message`. -/
def slamLuaEventMessage (P : SlamProtocol) (outcome : CallOutcome) (fd msgid : ℤ) : LuaM Bool :=
  match P.findName msgid with
  | none => return false
  | some name => do
    let t ← luaTop
    if t.isTable then do
      luaGetregistry name
      if (← luaTop).isFunction then do
        luaPushinteger fd
        luaPushinteger msgid
        -- `lua_pushvalue(L, t_index)`: the call gets a copy, and `t` stays below the function.
        luaPush t
        slamLuaPcall outcome 3
      else return false
    else return false

/-! ### What they leave on the stack -/

theorem run_luaPcall (outcome : CallOutcome) (argv : List LuaValue) (f : LuaValue) (L : LuaState)
    (rest : List LuaValue) :
    (luaPcall outcome argv.length).run { L with stack := argv ++ f :: rest } =
      (.ok outcome.raised, ⟨outcome.value :: rest, outcome.globals, outcome.registry⟩) := by
  simp [LuaM.run, luaPcall]

/-- `slam_lua_pcall` takes the function and its arguments off the stack, whether or not the call
raises and whether or not there is a traceback function. -/
theorem run_slamLuaPcall (outcome : CallOutcome) (argv : List LuaValue) {f : LuaValue}
    (hf : f.isFunction = true) (L : LuaState) (rest : List LuaValue) :
    (slamLuaPcall outcome argv.length).run { L with stack := argv ++ f :: rest } =
      (.ok (!outcome.raised), ⟨rest, outcome.globals, outcome.registry⟩) := by
  simp only [slamLuaPcall, LuaM.run_bind, run_luaIndex, hf, if_true, run_luaGetglobal, run_luaTop]
  set G := L.globals (cstring (asciiBytes "__G_TRACKBACK__"))
  cases htrace : G.isFunction with
  | false =>
    have hcall := run_luaPcall outcome argv f L rest
    simp only [Bool.false_eq_true, if_false, LuaM.run_bind, run_luaPop_one, LuaM.run_pure, hcall]
    cases outcome.raised <;> simp [LuaM.run_bind]
  | true =>
    -- The traceback function goes below the function and its arguments.
    have hinsert := run_luaInsert L rest (argv ++ [f]) G
    rw [List.length_append, List.append_assoc, List.append_assoc] at hinsert
    have hcall := run_luaPcall outcome argv f L (G :: rest)
    have hpop := run_luaPop rest [outcome.value, G] outcome.globals outcome.registry
    simp only [List.length_cons, List.length_nil, List.cons_append, List.nil_append] at hinsert hpop
    simp only [if_true, LuaM.run_bind, LuaM.run_pure, hinsert, hcall]
    cases outcome.raised
    · simp [LuaM.run_bind]
    · simp [LuaM.run_bind, hpop]

/-- The event of a connection whose handler is a function leaves nothing on the stack. -/
theorem run_slamLuaEventConnection {handler : List Byte} {L : LuaState}
    (hf : (L.globals (cstring handler)).isFunction = true) (outcome : CallOutcome) (fd : ℤ) :
    (slamLuaEventConnection handler outcome fd).run L =
      (.ok (!outcome.raised), ⟨L.stack, outcome.globals, outcome.registry⟩) := by
  have hcall := run_slamLuaPcall outcome [.number (BinaryFloat.ofInt fd)] hf L L.stack
  simp only [slamLuaEventConnection, LuaM.run_bind, run_luaGetglobal, run_luaTop, hf, if_true,
    run_luaPushinteger]
  exact hcall

/-- The event of a connection without handler leaves what stood in the handler's place. -/
theorem run_slamLuaEventConnection_of_not {handler : List Byte} {L : LuaState}
    (hf : (L.globals (cstring handler)).isFunction = false) (outcome : CallOutcome) (fd : ℤ) :
    (slamLuaEventConnection handler outcome fd).run L =
      (.ok false, { L with stack := L.globals (cstring handler) :: L.stack }) := by
  simp only [slamLuaEventConnection, LuaM.run_bind, run_luaGetglobal, run_luaTop, hf,
    Bool.false_eq_true, if_false, LuaM.run_pure]

/-- The event of a message whose handler is a function leaves the table of the message. -/
theorem run_slamLuaEventMessage {P : SlamProtocol} {msgid : ℤ} {name : List Byte}
    (hname : P.findName msgid = some name) {L : LuaState}
    (hf : (L.registry (cstring name)).isFunction = true) (outcome : CallOutcome) (fd : ℤ)
    (es : LuaEntries) (rest : List LuaValue) :
    (slamLuaEventMessage P outcome fd msgid).run { L with stack := .table es :: rest } =
      (.ok (!outcome.raised), ⟨.table es :: rest, outcome.globals, outcome.registry⟩) := by
  have hcall := run_slamLuaPcall outcome
    [.table es, .number (BinaryFloat.ofInt msgid), .number (BinaryFloat.ofInt fd)] hf L
    (.table es :: rest)
  simp only [slamLuaEventMessage, hname, LuaM.run_bind, run_luaTop, LuaValue.isTable, if_true,
    run_luaGetregistry, hf, run_luaPushinteger, run_luaPush]
  exact hcall

/-- Whatever becomes of it, the event of a message leaves the table that it found on top of the stack.
It returns whether the handler returned, if there is one. -/
theorem slamLuaEventMessage_leaves (P : SlamProtocol) (outcome : CallOutcome) (fd msgid : ℤ)
    (es : LuaEntries) (L : LuaState) (rest : List LuaValue) :
    ∃ rc L' ws, (slamLuaEventMessage P outcome fd msgid).run { L with stack := .table es :: rest } =
        (.ok rc, L') ∧ L'.stack = ws ++ .table es :: rest ∧
      ∀ name, P.findName msgid = some name → (L.registry (cstring name)).isFunction = true →
        rc = !outcome.raised := by
  cases hname : P.findName msgid with
  | none =>
    refine ⟨false, { L with stack := .table es :: rest }, [], ?_, rfl, nofun⟩
    rw [slamLuaEventMessage, hname]
    rfl
  | some name =>
    cases hf : (L.registry (cstring name)).isFunction with
    | false =>
      refine ⟨false, { L with stack := L.registry (cstring name) :: .table es :: rest },
        [L.registry (cstring name)], ?_, rfl, fun name' hname' hf' => ?_⟩
      · simp only [slamLuaEventMessage, hname, LuaM.run_bind, run_luaTop, LuaValue.isTable, if_true,
          run_luaGetregistry, hf, Bool.false_eq_true, if_false, LuaM.run_pure]
      · cases hname'
        rw [hf] at hf'
        cases hf'
    | true =>
      exact ⟨!outcome.raised, ⟨.table es :: rest, outcome.globals, outcome.registry⟩, [],
        run_slamLuaEventMessage hname hf outcome fd es rest, rfl, fun _ _ _ => rfl⟩

end Slam
