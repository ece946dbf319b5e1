import Slam.Codec.Decode
import Slam.Codec.Encode

/-!
# `MessageBuilder.cpp`: payloads of packages

The two entry points between a payload and the Lua stack. Protobuf's own wire format is a parameter:
`Protobuf` has `SerializeToArray` and `ParseFromArray` of every message type. The parser's cache of
registered messages is a map from message ids to types.

Both functions return, besides the code of the source, the message that was parsed or serialised, which
the parser keeps in its cache.
-/

namespace Slam

/-- The protobuf library on the messages of a schema. A serialised message has less than 2 GiB, and what
is parsed is a message of its type. -/
structure Protobuf (S : Schema) where
  /-- `SerializeToArray`. -/
  serialize : ℕ → List ProtoValue → Option (List Byte)
  /-- `ParseFromArray`. -/
  parse : ℕ → List Byte → Option (List ProtoValue)
  serialize_length : ∀ {t m bytes}, serialize t m = some bytes → bytes.length < 2 ^ 31
  parse_conforms : ∀ {t bytes m}, parse t bytes = some m → Conforms S t m

variable {S : Schema} (pb : Protobuf S) (rt : LuaRuntime)

/-- `luaT_message_parser_decode`. -/
def luaTMessageParserDecode (messages : ℤ → Option ℕ) (msgid : ℤ) (buf : List Byte) :
    LuaM (Option (List ProtoValue)) :=
  match messages msgid with
  | none => return none
  | some t =>
    match pb.parse t buf with
    | none => return none
    | some m => do
      luaNewtable
      -- When this fails the new table stays on the stack.
      if ← (decodeDescriptor S (S.types t) m).catchException false then return some m
      else return none

/-- `MessageBuilderDecode`. -/
def messageBuilderDecode (messages : ℤ → Option ℕ) (msgid : ℤ) (buf : List Byte) (bufsize : ℕ) :
    LuaM (Option (List ProtoValue)) :=
  if bufsize > 0 then luaTMessageParserDecode pb messages msgid (buf.take bufsize) else return none

/-- `luaT_message_parser_encode`, without the space reserved for the headers. -/
def luaTMessageParserEncode (fuel : ℕ) (messages : ℤ → Option ℕ) (msgid : ℤ) :
    LuaM (Option (List ProtoValue × List Byte)) :=
  match messages msgid with
  | none => return none
  | some t => do
    let (rc, m) ← (encodeDescriptor S rt fuel t (S.newMessage t)).catchException (false, [])
    if rc then return (pb.serialize t m).map fun bytes => (m, bytes)
    else return none

/-! ### What decoding leaves on the stack -/

/-- The type and the message that a payload is decoded to. -/
def decoded (messages : ℤ → Option ℕ) (msgid : ℤ) (buf : List Byte) (bufsize : ℕ) :
    Option (ℕ × List ProtoValue) :=
  if bufsize > 0 then
    (messages msgid).bind fun t => (pb.parse t (buf.take bufsize)).map fun m => (t, m)
  else none

/-- The type and the message that a buffer is parsed to. -/
def parsed (messages : ℤ → Option ℕ) (msgid : ℤ) (buf : List Byte) : Option (ℕ × List ProtoValue) :=
  (messages msgid).bind fun t => (pb.parse t buf).map fun m => (t, m)

theorem run_luaTMessageParserDecode_of_none {messages : ℤ → Option ℕ} {msgid : ℤ} {buf : List Byte}
    (h : parsed pb messages msgid buf = none) (L : LuaState) :
    (luaTMessageParserDecode pb messages msgid buf).run L = (.ok none, L) := by
  rw [luaTMessageParserDecode]
  cases ht : messages msgid with
  | none => rfl
  | some t =>
    rw [parsed, ht, Option.bind_some, Option.map_eq_none_iff] at h
    simp only [h]
    rfl

theorem run_luaTMessageParserDecode_of_some {messages : ℤ → Option ℕ} {msgid : ℤ} {buf : List Byte} {t : ℕ}
    {m : List ProtoValue} (h : parsed pb messages msgid buf = some (t, m)) (L : LuaState) :
    (luaTMessageParserDecode pb messages msgid buf).run L =
      (.ok (some m), { L with stack := .table (luaFields S (S.types t) m) :: L.stack }) := by
  rw [parsed, Option.bind_eq_some_iff] at h
  obtain ⟨t', ht, hparse⟩ := h
  obtain ⟨m', hm, heq⟩ := Option.map_eq_some_iff.1 hparse
  cases heq
  have hdecode := decodeDescriptor_extends (pb.parse_conforms hm) (S.names_nodup t) (S.nul_free t) []
    (by simp) L L.stack
  rw [List.nil_append] at hdecode
  rw [luaTMessageParserDecode]
  simp only [ht, hm, LuaM.run_bind, run_luaNewtable,
    LuaM.run_catchException_of_ok hdecode, if_true, LuaM.run_pure]

theorem decoded_of_pos (messages : ℤ → Option ℕ) (msgid : ℤ) (buf : List Byte) {bufsize : ℕ} (h : bufsize > 0) :
    decoded pb messages msgid buf bufsize = parsed pb messages msgid (buf.take bufsize) := by
  rw [decoded, if_pos h, parsed]

/-- A payload that is rejected leaves the stack as it is. -/
theorem run_messageBuilderDecode_of_none {messages : ℤ → Option ℕ} {msgid : ℤ} {buf : List Byte}
    {bufsize : ℕ} (h : decoded pb messages msgid buf bufsize = none) (L : LuaState) :
    (messageBuilderDecode pb messages msgid buf bufsize).run L = (.ok none, L) := by
  unfold messageBuilderDecode
  by_cases hsize : bufsize > 0
  · rw [decoded_of_pos pb messages msgid buf hsize] at h
    rw [if_pos hsize]
    exact run_luaTMessageParserDecode_of_none pb h L
  · rw [if_neg hsize]
    rfl

/-- A payload that is accepted leaves the table of its message on the stack. -/
theorem run_messageBuilderDecode_of_some {messages : ℤ → Option ℕ} {msgid : ℤ} {buf : List Byte}
    {bufsize t : ℕ} {m : List ProtoValue}
    (h : decoded pb messages msgid buf bufsize = some (t, m)) (L : LuaState) :
    (messageBuilderDecode pb messages msgid buf bufsize).run L =
      (.ok (some m), { L with stack := .table (luaFields S (S.types t) m) :: L.stack }) := by
  have hsize : bufsize > 0 := by
    by_contra hnot
    rw [decoded, if_neg hnot] at h
    cases h
  rw [decoded_of_pos pb messages msgid buf hsize] at h
  rw [messageBuilderDecode, if_pos hsize]
  exact run_luaTMessageParserDecode_of_some pb h L

/-! ### A small instance -/

/-- One type: `message Ping { bool v = 1; }`. -/
def pingSchema : Schema where
  types t := if t = 0 then [⟨asciiBytes "v", false, .bool⟩] else []
  names_nodup t := by split_ifs <;> decide
  nul_free t := by split_ifs <;> decide

/-- `Ping` on the wire: the default is left out, and `true` is the tag of field 1 and a varint. -/
def pingProtobuf : Protobuf pingSchema where
  serialize
    | 0, [.scalar (.bool b)] => some (if b then [8, 1] else [])
    | _, _ => none
  parse
    | 0, [] => some [.scalar (.bool false)]
    | 0, [8, 0] => some [.scalar (.bool false)]
    | 0, [8, 1] => some [.scalar (.bool true)]
    | _, _ => none
  serialize_length := by
    intro t m bytes h
    split at h
    · cases h
      split <;> decide
    · cases h
  parse_conforms := by
    intro t bytes m h
    split at h
    · cases h
      exact .cons (.single rfl (.scalar rfl trivial)) .nil
    · cases h
      exact .cons (.single rfl (.scalar rfl trivial)) .nil
    · cases h
      exact .cons (.single rfl (.scalar rfl trivial)) .nil
    · cases h

end Slam
