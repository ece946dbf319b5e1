import Slam.Io.Message

/-!
# The packed header of a package

Every package on the wire is a `slam_rawmessage_t`: `len`, `entityid`, `msgid` and `flags`, packed
without gaps, then the payload. `slam_protocol_encode` writes the header in front of the serialised
payload; `len` is a 32-bit field, while the size it is assigned from is a `size_t`.
`RawMessage.ofBytes` is the cast `(slam_rawmessage_t *) message->buf` of the receiving side.
-/

namespace Slam

/-- `slam_rawmessage_s`. -/
@[ext] structure RawMessage where
  len : ℕ
  entityid : ℕ
  msgid : ℤ
  flags : ℕ
  payload : List Byte
  deriving DecidableEq

namespace RawMessage

/-- The memory of a header and its payload. -/
def bytes (r : RawMessage) : List Byte :=
  leBytes msglenSize r.len ++ (leBytes 8 r.entityid ++ (leBytes 4 (r.msgid % 2 ^ 32).toNat ++
    (leBytes 2 r.flags ++ r.payload)))

/-- An `int` read from four bytes. -/
def toInt (n : ℕ) : ℤ := if n < 2 ^ 31 then n else n - 2 ^ 32

/-- The header read from the memory of a buffer. -/
def ofBytes (buf : List Byte) : RawMessage where
  len := leValue (buf.take msglenSize)
  entityid := leValue ((buf.drop 4).take 8)
  msgid := toInt (leValue ((buf.drop 12).take 4))
  flags := leValue ((buf.drop 16).take 2)
  payload := buf.drop rawmessageSize

/-- The fields lie in the ranges of their types. -/
structure InRange (r : RawMessage) : Prop where
  len : r.len < 2 ^ 32
  entityid : r.entityid < 2 ^ 64
  msgid : -2 ^ 31 ≤ r.msgid ∧ r.msgid < 2 ^ 31
  flags : r.flags < 2 ^ 16

theorem length_bytes (r : RawMessage) :
    r.bytes.length = rawmessageSize + r.payload.length := by
  simp [bytes, length_leBytes, rawmessageSize, msglenSize]
  omega

theorem toInt_toNat_emod {n : ℤ} (h : -2 ^ 31 ≤ n ∧ n < 2 ^ 31) :
    toInt (n % 2 ^ 32).toNat = n := by
  unfold toInt
  have hmod : 0 ≤ n % 2 ^ 32 := Int.emod_nonneg _ (by norm_num)
  split_ifs with hlt <;> omega

/-- A field at the front of the memory. -/
theorem take_leBytes_append (w n : ℕ) (rest : List Byte) :
    (leBytes w n ++ rest).take w = leBytes w n := by
  rw [List.take_append_of_le_length (by simp), List.take_of_length_le (by simp)]

/-- What follows a field. -/
theorem drop_leBytes_append (w n : ℕ) (rest : List Byte) : (leBytes w n ++ rest).drop w = rest := by
  rw [List.drop_append_of_le_length (by simp), List.drop_of_length_le (by simp), List.nil_append]

/-- Reading back what was written. -/
theorem ofBytes_bytes {r : RawMessage} (h : r.InRange) : ofBytes r.bytes = r := by
  have h4 : r.bytes.drop 4 = leBytes 8 r.entityid ++ (leBytes 4 (r.msgid % 2 ^ 32).toNat ++
      (leBytes 2 r.flags ++ r.payload)) := drop_leBytes_append 4 _ _
  have h12 : r.bytes.drop 12 = leBytes 4 (r.msgid % 2 ^ 32).toNat ++
      (leBytes 2 r.flags ++ r.payload) := by
    rw [show 12 = 4 + 8 from rfl, ← List.drop_drop, h4, drop_leBytes_append]
  have h16 : r.bytes.drop 16 = leBytes 2 r.flags ++ r.payload := by
    rw [show 16 = 12 + 4 from rfl, ← List.drop_drop, h12, drop_leBytes_append]
  have h18 : r.bytes.drop rawmessageSize = r.payload := by
    rw [show rawmessageSize = 16 + 2 from rfl, ← List.drop_drop, h16, drop_leBytes_append]
  have hmsgid : (r.msgid % 2 ^ 32).toNat < 256 ^ 4 := by
    have := Int.emod_lt_of_pos r.msgid (show (0 : ℤ) < 2 ^ 32 by norm_num)
    omega
  ext1
  · rw [ofBytes, bytes, take_leBytes_append]
    exact leValue_leBytes_of_lt (lt_of_lt_of_eq h.len (by norm_num [msglenSize]))
  · rw [ofBytes, h4, take_leBytes_append]
    exact leValue_leBytes_of_lt (lt_of_lt_of_eq h.entityid (by norm_num))
  · rw [ofBytes, h12, take_leBytes_append, leValue_leBytes_of_lt hmsgid, toInt_toNat_emod h.msgid]
  · rw [ofBytes, h16, take_leBytes_append]
    exact leValue_leBytes_of_lt (lt_of_lt_of_eq h.flags (by norm_num))
  · exact h18

end RawMessage

/-- The message that `slam_protocol_encode` builds around a serialised payload. `rawmessage->len`
keeps the low 32 bits of `message->bufsize`. -/
def encodedMessage (fd msgid : ℤ) (payload : List Byte) : Message where
  fd := fd
  type := .protobufPackage
  bufsize := rawmessageSize + payload.length
  bytesize := 0
  buf := RawMessage.bytes ⟨(rawmessageSize + payload.length) % 2 ^ 32, 0, msgid, 0, payload⟩

theorem encodedMessage_length (fd msgid : ℤ) (payload : List Byte) :
    (encodedMessage fd msgid payload).buf.length = (encodedMessage fd msgid payload).bufsize :=
  RawMessage.length_bytes _

theorem encodedMessage_bufsize_pos (fd msgid : ℤ) (payload : List Byte) :
    0 < (encodedMessage fd msgid payload).bufsize :=
  Nat.add_pos_left (by decide) _

end Slam
