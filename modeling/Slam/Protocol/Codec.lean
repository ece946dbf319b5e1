import Slam.Codec.MessageBuilder
import Slam.Lua.Event
import Slam.Protocol.Header

/-!
# `slam_protocol.c`: between packages and the Lua stack

`slam_protocol_decode` turns a package into a table and hands it to the handler of its message id;
`slam_protocol_encode` turns the table on top of the stack into a package. A message that is too long
for a package is only reported by the encoder, not refused.
-/

namespace Slam

variable {S : Schema} (pb : Protobuf S)

/-- What `slam_protocol_decode` comes to: the payload is refused, or a message is handed to its handler
by `slam_lua_event_message`, which returns `rc`. -/
inductive DecodeResult
  | error
  | event (msgid : ℤ) (m : List ProtoValue) (rc : Bool)

/-- `slam_protocol_decode`. -/
def slamProtocolDecode (P : SlamProtocol) (outcome : CallOutcome) (message : Message) :
    LuaM DecodeResult :=
  let rawmessage := RawMessage.ofBytes message.buf
  if message.bytesize = message.bufsize ∧ rawmessageSize ≤ rawmessage.len then do
    match ← messageBuilderDecode pb P.messages rawmessage.msgid rawmessage.payload
        (rawmessage.len - rawmessageSize) with
    | none => return .error
    | some m => do
      let rc ← slamLuaEventMessage P outcome message.fd rawmessage.msgid
      return .event rawmessage.msgid m rc
  else LuaM.fault .assertion

/-- `slam_protocol_encode`, with the message that was serialised. -/
def slamProtocolEncode (rt : LuaRuntime) (fuel : ℕ) (P : SlamProtocol) (fd msgid : ℤ) :
    LuaM (Option (List ProtoValue × Message)) := do
  match ← luaTMessageParserEncode pb rt fuel P.messages msgid with
  | none => return none
  -- `CHECK_ALARM` on the length writes to the log and nothing else.
  | some (m, payload) => return some (m, encodedMessage fd msgid payload)

/-! ### What a package is decoded to -/

/-- The type and the message that a package is decoded to. -/
def decodedPackage (P : SlamProtocol) (message : Message) : Option (ℕ × List ProtoValue) :=
  let rawmessage := RawMessage.ofBytes message.buf
  if message.bytesize = message.bufsize ∧ rawmessageSize ≤ rawmessage.len then
    decoded pb P.messages rawmessage.msgid rawmessage.payload (rawmessage.len - rawmessageSize)
  else none

section Decode

variable {pb} {P : SlamProtocol} {message : Message}

/-- A package that is refused leaves the stack as it is. -/
theorem run_slamProtocolDecode_of_none (h : decodedPackage pb P message = none)
    (outcome : CallOutcome) (L : LuaState) :
    ∃ r, (slamProtocolDecode pb P outcome message).run L = (r, L) ∧ ∀ d, r = .ok d → d = .error := by
  unfold slamProtocolDecode
  by_cases hassert : message.bytesize = message.bufsize ∧
      rawmessageSize ≤ (RawMessage.ofBytes message.buf).len
  · simp only [decodedPackage, if_pos hassert] at h
    refine ⟨.ok .error, ?_, fun d hd => (Except.ok.inj hd).symm⟩
    simp only [if_pos hassert, LuaM.run_bind, run_messageBuilderDecode_of_none pb h, LuaM.run_pure]
  · refine ⟨.error .assertion, ?_, nofun⟩
    simp only [if_neg hassert, LuaM.run_fault]

/-- A package that is decoded leaves at least the table of its message on the stack. -/
theorem run_slamProtocolDecode_of_some {t : ℕ} {m : List ProtoValue}
    (h : decodedPackage pb P message = some (t, m)) (outcome : CallOutcome) (L : LuaState) :
    ∃ rc L' ws, (slamProtocolDecode pb P outcome message).run L =
        (.ok (.event (RawMessage.ofBytes message.buf).msgid m rc), L') ∧
      L'.stack = ws ++ .table (luaFields S (S.types t) m) :: L.stack ∧
      ∀ name, P.findName (RawMessage.ofBytes message.buf).msgid = some name →
        (L.registry (cstring name)).isFunction = true → rc = !outcome.raised := by
  have hassert : message.bytesize = message.bufsize ∧
      rawmessageSize ≤ (RawMessage.ofBytes message.buf).len := by
    by_contra hnot
    simp only [decodedPackage, if_neg hnot] at h
    cases h
  simp only [decodedPackage, if_pos hassert] at h
  obtain ⟨rc, L', ws, hevent, hstack, hrc⟩ := slamLuaEventMessage_leaves P outcome message.fd
    (RawMessage.ofBytes message.buf).msgid (luaFields S (S.types t) m) L L.stack
  refine ⟨rc, L', ws, ?_, hstack, hrc⟩
  simp only [slamProtocolDecode, if_pos hassert, LuaM.run_bind,
    run_messageBuilderDecode_of_some pb h, hevent, LuaM.run_pure]

end Decode

/-! ### What a table is encoded to -/

theorem luaTMessageParserEncode_eq_some {pb : Protobuf S} {rt : LuaRuntime} {fuel : ℕ}
    {messages : ℤ → Option ℕ} {msgid : ℤ} {L L' : LuaState} {m : List ProtoValue}
    {payload : List Byte}
    (h : (luaTMessageParserEncode pb rt fuel messages msgid).run L = (.ok (some (m, payload)), L')) :
    ∃ t, messages msgid = some t ∧ pb.serialize t m = some payload := by
  unfold luaTMessageParserEncode at h
  cases ht : messages msgid with
  | none =>
    rw [ht] at h
    cases h
  | some t =>
    simp only [ht, LuaM.run_bind] at h
    split at h
    · rename_i res L₁ hrun
      obtain ⟨rc, m'⟩ := res
      cases rc with
      | false => cases h
      | true =>
        have hres := Except.ok.inj (Prod.mk.inj h).1
        obtain ⟨bytes, hbytes, heq⟩ := Option.map_eq_some_iff.1 hres
        cases heq
        exact ⟨t, rfl, hbytes⟩
    · cases h

/-- A message that is returned is the package around a serialised message of the registered type. -/
theorem slamProtocolEncode_eq_some {pb : Protobuf S} {rt : LuaRuntime} {fuel : ℕ} {P : SlamProtocol}
    {fd msgid : ℤ} {L L' : LuaState} {m : List ProtoValue} {message : Message}
    (h : (slamProtocolEncode pb rt fuel P fd msgid).run L = (.ok (some (m, message)), L')) :
    ∃ t payload, P.messages msgid = some t ∧ pb.serialize t m = some payload ∧
      message = encodedMessage fd msgid payload := by
  simp only [slamProtocolEncode, LuaM.run_bind] at h
  split at h
  · rename_i res L₁ hrun
    cases res with
    | none => cases h
    | some p =>
      obtain ⟨m', payload⟩ := p
      cases h
      obtain ⟨t, ht, hs⟩ := luaTMessageParserEncode_eq_some hrun
      exact ⟨t, payload, ht, hs, rfl⟩
  · cases h

/-- The message `Ping`, registered under the id 1. -/
def pingProtocol : SlamProtocol :=
  (SlamProtocol.new.regMessage (fun name => if name = asciiBytes "Ping" then some 0 else none) 1
    (asciiBytes "Ping")).2

end Slam
