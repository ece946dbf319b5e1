import Slam.Lib.LittleEndian

/-!
# `io/slam_message.c` and the wire header

A `Message` is a `slam_message_t`: the connection it belongs to, its type, and a buffer of
`bufsize` bytes of which `bytesize` have been received (or sent). The buffer starts with the
packed header `slam_rawmessage_t`, whose integers are stored in the byte order of the machine,
little-endian on the x86-64 target of `CMakeLists.txt`.
-/

namespace Slam

/-- `byte_t`. -/
abbrev Byte := UInt8

/-- The `MESSAGE_TYPE_*` constants; `other` is any value outside the enumeration. -/
inductive MessageType
  | establishConnection
  | lostConnection
  | protobufPackage
  | other (type : ℤ)
  deriving DecidableEq

/-- `slam_message_s`. -/
structure Message where
  fd : ℤ
  type : MessageType
  bufsize : ℕ
  bytesize : ℕ
  buf : List Byte
  deriving DecidableEq

/-- `slam_message_new`. The buffer is allocated uninitialised; its contents are read only after
they have been written, and zeros stand for them here. -/
def Message.new (fd : ℤ) (type : MessageType) (bufsize : ℕ) : Message :=
  ⟨fd, type, bufsize, 0, List.replicate bufsize 0⟩

/-- `sizeof(msglen_t)`. -/
def msglenSize : ℕ := 4

/-- `sizeof(slam_rawmessage_t)`: packed `len`, `entityid`, `msgid` and `flags`. -/
def rawmessageSize : ℕ := msglenSize + 8 + 4 + 2

/-- `PACKAGE_MIN_SIZE`. -/
def packageMinSize : ℕ := rawmessageSize

/-- `memcpy` of some bytes into a buffer at an offset. -/
def memcpyAt (buf : List Byte) (offset : ℕ) (bytes : List Byte) : List Byte :=
  buf.take offset ++ bytes ++ buf.drop (offset + bytes.length)

theorem length_memcpyAt {buf bytes : List Byte} {offset : ℕ}
    (h : offset + bytes.length ≤ buf.length) : (memcpyAt buf offset bytes).length = buf.length := by
  simp [memcpyAt]; omega

/-- The initialised part of a buffer after more bytes have been copied behind it. -/
theorem take_memcpyAt {buf bytes : List Byte} {offset : ℕ} (h : offset ≤ buf.length) :
    (memcpyAt buf offset bytes).take (offset + bytes.length) = buf.take offset ++ bytes := by
  have hlen : (buf.take offset ++ bytes).length = offset + bytes.length := by simp [h]
  rw [memcpyAt, ← hlen, List.take_left]

end Slam
