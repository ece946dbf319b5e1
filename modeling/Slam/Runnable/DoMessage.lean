import Slam.Protocol.Codec
import Slam.Lib.Machine

/-!
# `slam_runnable_do_message`: the worker's loop over queued messages

One turn of the loop is a message from the queue, the registered messages at that time, and what the
script does if it is called; a run is a list of turns. Whether a turn leaves the height of the Lua stack
as it found it is decided by `Turn.Neutral`: a package must be refused, since the table of a decoded one
is never taken off the stack, and a connection event must find its handler.
-/

namespace Slam

/-- What one turn of the loop meets. -/
structure Turn where
  message : Message
  protocol : SlamProtocol
  outcome : CallOutcome

variable {S : Schema} (pb : Protobuf S)

/-- The body of the loop of `slam_runnable_do_message`. -/
def doMessage (turn : Turn) : LuaM Unit :=
  match turn.message.type with
  | .protobufPackage => do
    let _ ← slamProtocolDecode pb turn.protocol turn.outcome turn.message
  | .establishConnection => do
    let _ ← slamLuaEventEstablishConnection turn.outcome turn.message.fd
  | .lostConnection => do
    let _ ← slamLuaEventLostConnection turn.outcome turn.message.fd
  | .other _ => return

/-- The worker: a turn whose assertions fail ends the process. -/
def worker : Machine LuaState Turn where
  step L turn :=
    match (doMessage pb turn).run L with
    | (.ok _, L') => some L'
    | (.error _, _) => none

/-- The turn, if it returns, leaves the height of the stack as it found it. -/
def KeepsHeight (L : LuaState) (turn : Turn) : Prop :=
  ∀ L', (worker pb).step L turn = some L' → L'.stack.length = L.stack.length

/-- The package is refused, or the handler of the connection event is a function. -/
def Turn.Neutral (L : LuaState) (turn : Turn) : Prop :=
  match turn.message.type with
  | .protobufPackage => decodedPackage pb turn.protocol turn.message = none
  | .establishConnection => (L.globals (cstring establishHandler)).isFunction = true
  | .lostConnection => (L.globals (cstring lostHandler)).isFunction = true
  | .other _ => True

/-! ### One turn -/

/-- A turn on a connection event, seen through the event alone. -/
theorem keepsHeight_of_connection {L : LuaState} {turn : Turn} {handler : List Byte}
    (hturn : doMessage pb turn = do
      let _ ← slamLuaEventConnection handler turn.outcome turn.message.fd) :
    KeepsHeight pb L turn ↔ (L.globals (cstring handler)).isFunction = true := by
  unfold KeepsHeight worker
  simp only [hturn, LuaM.run_bind]
  cases hf : (L.globals (cstring handler)).isFunction with
  | true =>
    rw [run_slamLuaEventConnection hf]
    simp
  | false =>
    rw [run_slamLuaEventConnection_of_not hf]
    simp

/-- **A turn keeps the height of the stack exactly if it is neutral.** -/
theorem keepsHeight_iff (L : LuaState) (turn : Turn) :
    KeepsHeight pb L turn ↔ turn.Neutral pb L := by
  cases htype : turn.message.type with
  | establishConnection =>
    simp only [Turn.Neutral, htype]
    refine keepsHeight_of_connection pb ?_
    simp only [doMessage, htype, slamLuaEventEstablishConnection]
  | lostConnection =>
    simp only [Turn.Neutral, htype]
    refine keepsHeight_of_connection pb ?_
    simp only [doMessage, htype, slamLuaEventLostConnection]
  | other type =>
    simp [KeepsHeight, worker, Turn.Neutral, htype, doMessage]
  | protobufPackage =>
    simp only [KeepsHeight, worker, Turn.Neutral, htype, doMessage, LuaM.run_bind]
    cases hdecoded : decodedPackage pb turn.protocol turn.message with
    | none =>
      obtain ⟨r, hrun, -⟩ := run_slamProtocolDecode_of_none hdecoded turn.outcome L
      rw [hrun]
      cases r <;> simp
    | some p =>
      obtain ⟨rc, L', ws, hrun, hstack, -⟩ := run_slamProtocolDecode_of_some hdecoded turn.outcome L
      -- The table of the message is still there, whatever the event did above it.
      refine iff_of_false (fun hkeeps => ?_) (by simp)
      have hheight := hkeeps L' (by rw [hrun]; rfl)
      rw [hstack, List.length_append, List.length_cons] at hheight
      omega

/-! ### Runs -/

/-- **The stack is kept by exactly the runs of neutral turns.** For every stack and every sequence of
turns: every turn keeps the height of the stack if and only if every turn is neutral when it comes, and
then the run ends at the height at which it began. -/
theorem worker_keepsHeight_iff (L : LuaState) (turns : List Turn) :
    ((worker pb).Guarded (KeepsHeight pb) L turns ↔
      (worker pb).Guarded (fun L turn => turn.Neutral pb L) L turns) ∧
    ((worker pb).Guarded (fun L turn => turn.Neutral pb L) L turns → ∀ L',
      (worker pb).run L turns = some L' → L'.stack.length = L.stack.length) := by
  refine ⟨Machine.guarded_congr (keepsHeight_iff pb), fun hneutral L' hrun => ?_⟩
  refine Machine.invariant_of_guarded (I := fun M : LuaState => M.stack.length = L.stack.length)
    ?_ rfl hneutral hrun
  intro M turn M' hM hturn hstep
  exact ((keepsHeight_iff pb M turn).2 hturn M' hstep).trans hM

/-- A `Ping` on connection 5, and a handler that returns. -/
def pingTurn : Turn where
  message := ⟨5, .protobufPackage, 20, 20, RawMessage.bytes ⟨20, 0, 1, 0, [8, 1]⟩⟩
  protocol := pingProtocol
  outcome := ⟨false, .nil, fun _ => .nil, fun _ => .function 0⟩

/-- The script has no globals, and a handler for every message. -/
def pingState : LuaState := ⟨[], fun _ => .nil, fun _ => .function 0⟩

/-- An event that finds its handler takes it off the stack again, and an empty payload is refused. -/
theorem worker_keepsHeight_refused :
    let established : Turn := { pingTurn with message := .new 5 .establishConnection 0 }
    let refused : Turn := { pingTurn with
      message := ⟨5, .protobufPackage, 18, 18, RawMessage.bytes ⟨18, 0, 1, 0, []⟩⟩ }
    let L : LuaState := { pingState with globals := fun _ => .function 0 }
    ∃ L', (worker pingProtobuf).run L [established, refused] = some L' ∧
      L'.stack.length = L.stack.length := by
  intro established refused L
  have hrefused : decodedPackage pingProtobuf refused.protocol refused.message = none :=
    Option.isNone_iff_eq_none.1 (by decide +kernel)
  obtain ⟨L', hrun⟩ : ∃ L', (worker pingProtobuf).run L [established, refused] = some L' :=
    Option.isSome_iff_exists.1 (by decide +kernel)
  refine ⟨L', hrun, (worker_keepsHeight_iff pingProtobuf L [established, refused]).2 ?_ L' hrun⟩
  exact ⟨rfl, fun M _ => ⟨hrefused, fun _ _ => trivial⟩⟩

/-- Each `Ping` leaves a table on the stack although its handler returns, and a connection event without
handler leaves a nil. -/
theorem worker_height_grows :
    let established : Turn := { pingTurn with message := .new 5 .establishConnection 0 }
    ¬ (worker pingProtobuf).Guarded (KeepsHeight pingProtobuf) pingState [pingTurn] ∧
    ((worker pingProtobuf).run pingState [pingTurn, pingTurn, established]).map
      (fun L => L.stack.length) = some 3 := by
  refine ⟨fun h => ?_, by decide +kernel⟩
  have hneutral := (keepsHeight_iff pingProtobuf pingState pingTurn).1 h.1
  have hdecoded : (decodedPackage pingProtobuf pingTurn.protocol pingTurn.message).isSome = true := by
    decide +kernel
  rw [show decodedPackage pingProtobuf pingTurn.protocol pingTurn.message = none from hneutral] at hdecoded
  cases hdecoded

end Slam
