import Slam.Io.Message
import Slam.Lib.Machine
import Mathlib.Tactic

/-!
# `slam_byte_buffer.c`: bytes in the order in which they were written

A byte buffer is a piece of memory with two cursors: what lies between `rlength` and `wlength` was written and not yet
read. `slam_byte_buffer_reserve` lets the memory grow by at least a chunk; reading the last byte, as `shrink` does on
an empty buffer, puts both cursors back to the start.

A function is `none` when an assertion fails or when a `memcpy` leaves the memory. `Holds` says that a buffer stands for
a list of bytes, and each function has one lemma about it. `realloc` is one that succeeds.
-/

namespace Slam

/-- `struct slam_byte_buffer_s`. Each byte of the memory is unknown until it is written; the null pointer is the memory
without a byte. -/
structure ByteBuffer where
  bytes : List (Option Byte)
  capacity : ℕ
  rlength : ℕ
  wlength : ℕ

namespace ByteBuffer

/-! ### The functions of the source -/

/-- `BUFFER_CHUNK_SIZE`. -/
def bufferChunkSize : ℕ := 0x200

/-- `realloc` keeps what fits, and what it adds is unknown. -/
def realloc (bytes : List (Option Byte)) (size : ℕ) : List (Option Byte) :=
  (bytes ++ List.replicate (size - bytes.length) none).take size

/-- `memcpy` into the memory. -/
def poke (bytes : List (Option Byte)) (offset : ℕ) (data : List Byte) : Option (List (Option Byte)) :=
  if offset + data.length ≤ bytes.length then
    some (bytes.take offset ++ data.map some ++ bytes.drop (offset + data.length))
  else none

/-- `memcpy` out of the memory. -/
def peek (bytes : List (Option Byte)) (offset len : ℕ) : Option (List (Option Byte)) :=
  if offset + len ≤ bytes.length then some ((bytes.drop offset).take len) else none

/-- `slam_byte_buffer_blank`. -/
def blank (b : ByteBuffer) : Option ℕ :=
  if b.capacity ≥ b.wlength then some (b.capacity - b.wlength) else none

/-- `slam_byte_buffer_reserve`. -/
def reserve (b : ByteBuffer) (newsize : ℕ) : Option ByteBuffer := do
  let blank ← b.blank
  if blank > newsize then return b
  let newsize := if newsize < bufferChunkSize then bufferChunkSize else newsize
  let newsize := (newsize + b.capacity) % 2 ^ 64
  return { b with bytes := realloc b.bytes newsize, capacity := newsize }

/-- `slam_byte_buffer_size`. -/
def size (b : ByteBuffer) : Option ℕ :=
  if b.wlength ≥ b.rlength then some (b.wlength - b.rlength) else none

/-- `slam_byte_buffer_reset`. -/
def reset (b : ByteBuffer) : ByteBuffer := { b with rlength := 0, wlength := 0 }

/-- `slam_byte_buffer_shrink`. -/
def shrink (b : ByteBuffer) : Option ByteBuffer := do
  if (← b.size) = 0 then return b.reset else return b

/-- `slam_byte_buffer_new`. -/
def new (initsize : ℕ) : Option ByteBuffer := reserve ⟨[], 0, 0, 0⟩ initsize

/-- `slam_byte_buffer_clear`. `slam_free` leaves a null pointer. -/
def clear (_ : ByteBuffer) : ByteBuffer := ⟨[], 0, 0, 0⟩

/-- `slam_byte_buffer_readlength`. -/
def readlength (b : ByteBuffer) (len : ℕ) : Option ByteBuffer :=
  let b := { b with rlength := (b.rlength + len) % 2 ^ 64 }
  if b.wlength ≥ b.rlength then b.shrink else none

/-- `slam_byte_buffer_writelength`. -/
def writelength (b : ByteBuffer) (len : ℕ) : Option ByteBuffer :=
  let b := { b with wlength := (b.wlength + len) % 2 ^ 64 }
  if b.capacity ≥ b.wlength then some b else none

/-- `slam_byte_buffer_read`, with what is copied out. -/
def read (b : ByteBuffer) (bufsize : ℕ) : Option (List (Option Byte) × ByteBuffer) := do
  let readsize ← b.size
  let readsize := if readsize > bufsize then bufsize else readsize
  let buf ← peek b.bytes b.rlength readsize
  let b ← b.readlength readsize
  return (buf, b)

/-- `slam_byte_buffer_write`. -/
def write (b : ByteBuffer) (buf : List Byte) : Option ByteBuffer := do
  let b ← b.reserve buf.length
  let bytes ← poke b.bytes b.wlength buf
  writelength { b with bytes := bytes } buf.length

/-! ### What a buffer stands for -/

/-- The buffer holds the bytes, oldest first. -/
structure Holds (b : ByteBuffer) (queue : List Byte) : Prop where
  length_bytes : b.bytes.length = b.capacity
  capacity_lt : b.capacity < 2 ^ 64
  read_le : b.rlength ≤ b.wlength
  write_le : b.wlength ≤ b.capacity
  contents : (b.bytes.take b.wlength).drop b.rlength = queue.map some

/-- If the memory has to grow, its new size is still a `size_t`. -/
def Reservable (b : ByteBuffer) (newsize : ℕ) : Prop :=
  b.capacity - b.wlength ≤ newsize → max newsize bufferChunkSize + b.capacity < 2 ^ 64

instance (b : ByteBuffer) (newsize : ℕ) : Decidable (b.Reservable newsize) :=
  inferInstanceAs (Decidable (_ → _))

variable {b : ByteBuffer} {queue : List Byte}

theorem Holds.length_queue (h : b.Holds queue) : queue.length = b.wlength - b.rlength := by
  have hlength := congrArg List.length h.contents
  have hwrite := h.write_le
  have hbytes := h.length_bytes
  rw [List.length_drop, List.length_take, List.length_map] at hlength
  omega

theorem Holds.size_eq (h : b.Holds queue) : b.size = some queue.length := by
  rw [size, if_pos h.read_le, h.length_queue]

theorem holds_clear (b : ByteBuffer) : b.clear.Holds [] := ⟨rfl, Nat.two_pow_pos 64, le_rfl, le_rfl, rfl⟩

theorem Holds.reset (h : b.Holds queue) : b.reset.Holds [] :=
  ⟨h.length_bytes, h.capacity_lt, le_rfl, Nat.zero_le _, rfl⟩

/-- An empty buffer starts anew. -/
theorem Holds.shrink (h : b.Holds queue) : ∃ b', b.shrink = some b' ∧ b'.Holds queue := by
  simp only [ByteBuffer.shrink, h.size_eq, Option.bind_eq_bind, Option.bind_some]
  split_ifs with hempty
  · obtain rfl := List.length_eq_zero_iff.1 hempty
    exact ⟨_, rfl, h.reset⟩
  · exact ⟨_, rfl, h⟩

theorem take_realloc {bytes : List (Option Byte)} {n size : ℕ} (hn : n ≤ bytes.length) (hsize : bytes.length ≤ size) :
    (realloc bytes size).take n = bytes.take n := by
  rw [realloc, List.take_take, min_eq_left (hn.trans hsize), List.take_append_of_le_length hn]

theorem length_realloc {bytes : List (Option Byte)} {size : ℕ} : (realloc bytes size).length = size := by
  rw [realloc, List.length_take, List.length_append, List.length_replicate]
  omega

/-- **After `reserve` there is room.** The comparison is strict, so the memory also grows when it would just do. -/
theorem Holds.reserve (h : b.Holds queue) {newsize : ℕ} (hfits : b.Reservable newsize) :
    ∃ b', b.reserve newsize = some b' ∧ b'.Holds queue ∧ newsize ≤ b'.capacity - b'.wlength := by
  have hblank : b.blank = some (b.capacity - b.wlength) := if_pos h.write_le
  by_cases hroom : b.capacity - b.wlength > newsize
  · refine ⟨b, ?_, h, hroom.le⟩
    simp only [ByteBuffer.reserve, hblank, Option.bind_eq_bind, Option.bind_some, if_pos hroom]
    rfl
  · have hlt := hfits (not_lt.1 hroom)
    have hmax : (if newsize < bufferChunkSize then bufferChunkSize else newsize) = max newsize bufferChunkSize := by
      split_ifs <;> omega
    have hwrite := h.write_le
    have hbytes := h.length_bytes
    simp only [ByteBuffer.reserve, hblank, Option.bind_eq_bind, Option.bind_some, if_neg hroom, hmax, Nat.mod_eq_of_lt hlt]
    refine ⟨_, rfl, ⟨length_realloc, hlt, h.read_le, ?_, ?_⟩, ?_⟩
    · exact hwrite.trans (Nat.le_add_left ..)
    · show ((realloc b.bytes (max newsize bufferChunkSize + b.capacity)).take b.wlength).drop b.rlength = _
      rw [take_realloc (by omega) (by omega)]
      exact h.contents
    · show newsize ≤ max newsize bufferChunkSize + b.capacity - b.wlength
      omega

theorem new_holds {initsize : ℕ} (h : initsize < 2 ^ 64) : ∃ b, new initsize = some b ∧ b.Holds [] := by
  have hfits : Reservable ⟨[], 0, 0, 0⟩ initsize := fun _ => by
    show max initsize 0x200 + 0 < 2 ^ 64
    omega
  obtain ⟨b, hb, hholds, -⟩ := (holds_clear ⟨[], 0, 0, 0⟩).reserve hfits
  exact ⟨b, hb, hholds⟩

/-- Writing appends. -/
theorem Holds.write (h : b.Holds queue) {buf : List Byte} (hfits : b.Reservable buf.length) :
    ∃ b', b.write buf = some b' ∧ b'.Holds (queue ++ buf) := by
  obtain ⟨b', hreserve, h', hroom⟩ := h.reserve hfits
  have hcap := h'.capacity_lt
  have hread := h'.read_le
  have hwrite := h'.write_le
  have hbytes := h'.length_bytes
  have hpoke : poke b'.bytes b'.wlength buf =
      some (b'.bytes.take b'.wlength ++ buf.map some ++ b'.bytes.drop (b'.wlength + buf.length)) :=
    if_pos (by omega)
  have hmod : (b'.wlength + buf.length) % 2 ^ 64 = b'.wlength + buf.length := Nat.mod_eq_of_lt (by omega)
  have hcursor : b'.capacity ≥ b'.wlength + buf.length := by omega
  simp only [ByteBuffer.write, hreserve, hpoke, writelength, hmod, if_pos hcursor, Option.bind_eq_bind, Option.bind_some]
  refine ⟨_, rfl, ⟨?_, hcap, ?_, hcursor, ?_⟩⟩
  · simp only [List.length_append, List.length_take, List.length_map, List.length_drop]
    omega
  · show b'.rlength ≤ b'.wlength + buf.length
    omega
  · -- What lies before the new bytes is what the buffer held.
    have hlength : (b'.bytes.take b'.wlength).length = b'.wlength := by
      rw [List.length_take]
      omega
    have htake : (b'.bytes.take b'.wlength ++ buf.map some ++ b'.bytes.drop (b'.wlength + buf.length)).take
        (b'.wlength + buf.length) = b'.bytes.take b'.wlength ++ buf.map some := by
      refine List.take_left' ?_
      rw [List.length_append, hlength, List.length_map]
    show List.drop b'.rlength _ = _
    rw [htake, List.drop_append_of_le_length (by omega), h'.contents, List.map_append]

/-- Reading takes the oldest bytes. -/
theorem Holds.read (h : b.Holds queue) (bufsize : ℕ) :
    ∃ b', b.read bufsize = some ((queue.take bufsize).map some, b') ∧ b'.Holds (queue.drop bufsize) := by
  have hcap := h.capacity_lt
  have hread := h.read_le
  have hwrite := h.write_le
  have hbytes := h.length_bytes
  have hqueue := h.length_queue
  have hmin : (if queue.length > bufsize then bufsize else queue.length) = min bufsize queue.length := by
    split_ifs <;> omega
  set n := min bufsize queue.length with hn
  have hpeek : peek b.bytes b.rlength n = some ((queue.take bufsize).map some) := by
    rw [peek, if_pos (by omega), List.map_take, ← h.contents, List.drop_take, List.take_take, ← hqueue]
  have hmod : (b.rlength + n) % 2 ^ 64 = b.rlength + n := Nat.mod_eq_of_lt (by omega)
  have hcursor : b.wlength ≥ b.rlength + n := by omega
  have hrest : Holds { b with rlength := b.rlength + n } (queue.drop bufsize) := by
    refine ⟨hbytes, hcap, hcursor, hwrite, ?_⟩
    show (b.bytes.take b.wlength).drop (b.rlength + n) = _
    rw [← List.drop_drop, h.contents, ← List.map_drop, hn]
    -- A buffer that is larger than what is held takes all of it.
    rcases le_total bufsize queue.length with hle | hle
    · rw [min_eq_left hle]
    · rw [min_eq_right hle, List.drop_length, List.drop_eq_nil_of_le hle]
  obtain ⟨b', hshrink, h'⟩ := hrest.shrink
  refine ⟨b', ?_, h'⟩
  simp only [ByteBuffer.read, h.size_eq, hmin, hpeek, readlength, hmod, if_pos hcursor, hshrink, Option.bind_eq_bind,
    Option.bind_some]
  rfl

/-! ### Calls in any order -/

/-- The calls of other code. -/
inductive Call
  | write (buf : List Byte)
  | read (bufsize : ℕ)
  | reserve (newsize : ℕ)
  | shrink
  | reset
  | clear

/-- The buffer, with what was written and what was read since the last `reset` or `clear`. -/
structure Session where
  buffer : ByteBuffer
  written : List Byte
  read : List (Option Byte)

/-- A call. -/
def Session.call (s : Session) : Call → Option Session
  | .write buf => (s.buffer.write buf).map fun b => { s with buffer := b, written := s.written ++ buf }
  | .read bufsize => (s.buffer.read bufsize).map fun r => { s with buffer := r.2, read := s.read ++ r.1 }
  | .reserve newsize => (s.buffer.reserve newsize).map fun b => { s with buffer := b }
  | .shrink => s.buffer.shrink.map fun b => { s with buffer := b }
  | .reset => some ⟨s.buffer.reset, [], []⟩
  | .clear => some ⟨s.buffer.clear, [], []⟩

/-- The machine of the calls. -/
def machine : Machine Session Call := ⟨Session.call⟩

/-- The sizes stay below the limit of `size_t`. -/
def SizeFits (s : Session) : Call → Prop
  | .write buf => s.buffer.Reservable buf.length
  | .reserve newsize => s.buffer.Reservable newsize
  | .read _ | .shrink | .reset | .clear => True

/-- What was written is what was read and what the buffer still holds. -/
def Session.Fifo (s : Session) : Prop :=
  ∃ queue, s.buffer.Holds queue ∧ s.written.map some = s.read ++ queue.map some

/-- **A call keeps the order.** -/
theorem Session.Fifo.call {s : Session} (h : s.Fifo) {c : Call} (hfits : SizeFits s c) :
    ∃ s', machine.step s c = some s' ∧ s'.Fifo := by
  obtain ⟨queue, hholds, hwritten⟩ := h
  cases c with
  | write buf =>
    obtain ⟨b, hb, hholds⟩ := hholds.write hfits
    refine ⟨⟨b, s.written ++ buf, s.read⟩, by simp [machine, Session.call, hb], queue ++ buf, hholds, ?_⟩
    show (s.written ++ buf).map some = s.read ++ (queue ++ buf).map some
    rw [List.map_append, hwritten, List.map_append, List.append_assoc]
  | read bufsize =>
    obtain ⟨b, hb, hholds⟩ := hholds.read bufsize
    refine ⟨⟨b, s.written, s.read ++ (queue.take bufsize).map some⟩, by simp [machine, Session.call, hb],
      queue.drop bufsize, hholds, ?_⟩
    show s.written.map some = s.read ++ (queue.take bufsize).map some ++ (queue.drop bufsize).map some
    rw [hwritten, List.append_assoc, ← List.map_append, List.take_append_drop]
  | reserve newsize =>
    obtain ⟨b, hb, hholds, -⟩ := hholds.reserve hfits
    exact ⟨{ s with buffer := b }, by simp [machine, Session.call, hb], queue, hholds, hwritten⟩
  | shrink =>
    obtain ⟨b, hb, hholds⟩ := hholds.shrink
    exact ⟨{ s with buffer := b }, by simp [machine, Session.call, hb], queue, hholds, hwritten⟩
  | reset => exact ⟨_, rfl, [], hholds.reset, rfl⟩
  | clear => exact ⟨_, rfl, [], holds_clear s.buffer, rfl⟩

/-! ### Sizes of a whole run -/

/-- What a call can add to the capacity. -/
def Call.growth : Call → ℕ
  | .write buf => max buf.length bufferChunkSize
  | .reserve newsize => max newsize bufferChunkSize
  | .read _ | .shrink | .reset | .clear => 0

theorem capacity_reserve_le {b b' : ByteBuffer} {newsize : ℕ} (h : b.reserve newsize = some b') :
    b'.capacity ≤ b.capacity + max newsize bufferChunkSize := by
  unfold ByteBuffer.reserve at h
  obtain ⟨blank, -, h⟩ := Option.bind_eq_some_iff.1 h
  split_ifs at h with hroom hsmall
  · cases h
    omega
  · cases h
    refine (Nat.mod_le _ _).trans ?_
    omega
  · cases h
    refine (Nat.mod_le _ _).trans ?_
    omega

theorem capacity_shrink {b b' : ByteBuffer} (h : b.shrink = some b') : b'.capacity = b.capacity := by
  unfold ByteBuffer.shrink at h
  obtain ⟨size, -, h⟩ := Option.bind_eq_some_iff.1 h
  split_ifs at h <;> cases h <;> rfl

theorem capacity_call_le {s s' : Session} {c : Call} (h : s.call c = some s') :
    s'.buffer.capacity ≤ s.buffer.capacity + c.growth := by
  cases c with
  | write buf =>
    obtain ⟨b, hb, rfl⟩ := Option.map_eq_some_iff.1 h
    obtain ⟨b₁, hreserve, hb⟩ := Option.bind_eq_some_iff.1 hb
    obtain ⟨bytes, -, hb⟩ := Option.bind_eq_some_iff.1 hb
    have hgrown := capacity_reserve_le hreserve
    simp only [writelength] at hb
    split_ifs at hb
    cases hb
    exact hgrown
  | read bufsize =>
    obtain ⟨r, hr, rfl⟩ := Option.map_eq_some_iff.1 h
    obtain ⟨size, -, hr⟩ := Option.bind_eq_some_iff.1 hr
    obtain ⟨buf, -, hr⟩ := Option.bind_eq_some_iff.1 hr
    obtain ⟨b, hb, hr⟩ := Option.bind_eq_some_iff.1 hr
    cases hr
    generalize (if size > bufsize then bufsize else size) = len at hb
    simp only [readlength] at hb
    split_ifs at hb
    exact (capacity_shrink hb).le
  | reserve newsize =>
    obtain ⟨b, hb, rfl⟩ := Option.map_eq_some_iff.1 h
    exact capacity_reserve_le hb
  | shrink =>
    obtain ⟨b, hb, rfl⟩ := Option.map_eq_some_iff.1 h
    exact (capacity_shrink hb).le
  | reset =>
    cases h
    exact le_rfl
  | clear =>
    cases h
    exact Nat.zero_le _

/-- If all sizes together stay below the limit, so does each size on the way. -/
theorem guarded_of_total {s : Session} {calls : List Call}
    (h : s.buffer.capacity + (calls.map Call.growth).sum < 2 ^ 64) : machine.Guarded SizeFits s calls := by
  induction calls generalizing s with
  | nil => trivial
  | cons c calls ih =>
    rw [List.map_cons, List.sum_cons] at h
    refine ⟨?_, fun s' hs' => ih ?_⟩
    · cases c with
      | write buf =>
        intro _
        show max buf.length bufferChunkSize + s.buffer.capacity < 2 ^ 64
        rw [Call.growth] at h
        omega
      | reserve newsize =>
        intro _
        show max newsize bufferChunkSize + s.buffer.capacity < 2 ^ 64
        rw [Call.growth] at h
        omega
      | read | shrink | reset | clear => trivial
    · have hle := capacity_call_le hs'
      omega

/-- **A byte buffer is a queue of bytes.** For every initial size and every sequence of calls whose sizes stay below the
limit of `size_t`, each call returns: no assertion fails and no write leaves the memory. At the end, which may be
anywhere, the cursors are in order, the size is what was written less what was read since the last `reset` or
`clear`, what was read then begins what was written, and a write finds its length of free space. -/
theorem byteBuffer_fifo {initsize : ℕ} (h : initsize < 2 ^ 64) : ∃ b, new initsize = some b ∧
    ∀ calls, machine.Guarded SizeFits ⟨b, [], []⟩ calls → ∃ s, machine.run ⟨b, [], []⟩ calls = some s ∧
      s.buffer.rlength ≤ s.buffer.wlength ∧ s.buffer.wlength ≤ s.buffer.capacity ∧
      s.buffer.size = some (s.written.length - s.read.length) ∧ s.read.length ≤ s.written.length ∧
      s.read <+: s.written.map some ∧
      ∀ newsize, s.buffer.Reservable newsize → ∃ b', s.buffer.reserve newsize = some b' ∧
        newsize ≤ b'.capacity - b'.wlength := by
  obtain ⟨b, hb, hholds⟩ := new_holds h
  refine ⟨b, hb, fun calls hguarded => ?_⟩
  obtain ⟨s, hrun, queue, hholds, hwritten⟩ := Machine.run_of_guarded (I := Session.Fifo)
    (fun s c hs hfits => hs.call hfits) ⟨[], hholds, rfl⟩ hguarded
  have hlength := congrArg List.length hwritten
  rw [List.length_map, List.length_append, List.length_map] at hlength
  refine ⟨s, hrun, hholds.read_le, hholds.write_le, ?_, by omega, ⟨_, hwritten.symm⟩, fun newsize hfits => ?_⟩
  · rw [hholds.size_eq]
    congr 1
    omega
  · obtain ⟨b', hreserve, -, hroom⟩ := hholds.reserve hfits
    exact ⟨b', hreserve, hroom⟩

/-- Two writes and two reads around a growth, and a new start. -/
def sampleCalls : List Call :=
  [.write [1, 2, 3], .read 2, .reserve 600, .write [4], .read 8, .clear, .write [9], .shrink, .read 0]

/-- These calls return, and one byte is held after them. -/
theorem byteBuffer_fifo_sampleCalls : ∃ b, new 0 = some b ∧ ∃ s, machine.run ⟨b, [], []⟩ sampleCalls = some s ∧
    s.buffer.size = some (s.written.length - s.read.length) ∧ s.read <+: s.written.map some := by
  obtain ⟨b, hb, hruns⟩ := byteBuffer_fifo (Nat.two_pow_pos 64)
  have hcap : b.capacity ≤ 0 + max 0 bufferChunkSize := capacity_reserve_le hb
  have htotal : b.capacity + (sampleCalls.map Call.growth).sum < 2 ^ 64 := by
    refine (Nat.add_le_add_right hcap _).trans_lt ?_
    decide
  obtain ⟨s, hrun, -, -, hsize, -, hread, -⟩ := hruns sampleCalls (guarded_of_total htotal)
  exact ⟨b, hb, s, hrun, hsize, hread⟩

end ByteBuffer

end Slam
