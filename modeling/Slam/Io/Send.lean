import Slam.Lib.Fifo
import Slam.Protocol.Header

/-!
# `io/slam_socket.c`: the sending side of a connection

`cc.response` encodes a message and hands it to `slam_io_response`, which appends it to the `sendmq`
of the socket that owns the descriptor; the io thread later drains the queue with
`slam_socket_poll_write`. The progress of a partial `send` is kept in the message at the head of the
queue.

The answers of `send` are a script, as for `recv`. A `Sender` also remembers, as ghosts, the bytes
`send` has accepted (`wire`), the messages that entered the queue (`accepted`) and how many of them
have left it (`departed`). `Sender.Sound` is the invariant; `Sender.Integrity` says what it is for.
-/

namespace Slam

/-! ### `send` -/

/-- How the kernel answers a call of `send`: it takes `n + 1` of the bytes offered (all of them
when fewer are offered), none, or fails. -/
inductive SendAnswer
  | accept (n : ℕ)
  | eintr
  | eagain
  | zero
  | error
  deriving DecidableEq

/-- What one call of `send` reports. -/
inductive SendResult
  | sent (len : ℕ)
  | interrupted
  | wouldblock
  | lost
  | failed

/-- `send` with `len` bytes offered; a script that is used up answers `EAGAIN`. -/
def send (len : ℕ) : List SendAnswer → SendResult × List SendAnswer
  | [] => (.wouldblock, [])
  | .accept n :: script => (.sent (min (n + 1) len), script)
  | .eintr :: script => (.interrupted, script)
  | .eagain :: script => (.wouldblock, script)
  | .zero :: script => (.lost, script)
  | .error :: script => (.failed, script)

theorem send_sent {len k : ℕ} (hlen : 0 < len) {s s' : List SendAnswer}
    (h : send len s = (.sent k, s')) : 0 < k ∧ k ≤ len ∧ s'.length < s.length := by
  match s with
  | .accept n :: s => cases h; simp; omega

theorem send_interrupted {len : ℕ} {s s' : List SendAnswer}
    (h : send len s = (.interrupted, s')) : s'.length < s.length := by
  match s with
  | .eintr :: s => cases h; simp

/-! ### `slam_socket_poll_write` -/

/-- The places where `slam_socket_poll_write` ends. `aborted` is a failed `assert`. -/
inductive PollWriteEnd
  | drained
  | wouldblock
  | lost
  | sendError
  | aborted
  deriving DecidableEq

/-- The value returned there. -/
def PollWriteEnd.rc : PollWriteEnd → Bool
  | .drained | .wouldblock => true
  | _ => false

/-- The sending half of a socket: its `sendmq`, the answers `send` has still to give, the bytes it
has accepted, the messages that entered the queue and the number of those that left it. -/
structure Sender (cap : ℕ) where
  sendmq : BoundedFifo Message cap
  script : List SendAnswer
  wire : List Byte
  accepted : List Message
  departed : ℕ

/-- A connection as `slam_socket_newfd` leaves it. -/
def Sender.new (cap : ℕ) (script : List SendAnswer) : Sender cap :=
  ⟨BoundedFifo.empty Message cap, script, [], [], 0⟩

variable {cap : ℕ}

/-- The bookkeeping after `send` took `len` bytes of the message `m` at the head of the queue. -/
def Sender.advance (s : Sender cap) (m : Message) (len : ℕ) : Option PollWriteEnd × Sender cap :=
  let m' := { m with bytesize := m.bytesize + len }
  let s' := { s with wire := s.wire ++ (m.buf.drop m.bytesize).take len }
  if ¬ m'.bytesize ≤ m'.bufsize then (some .aborted, { s' with sendmq := s.sendmq.setFront m' })
  else if m'.bytesize = m'.bufsize then
    match s.sendmq.pop with
    | none => (none, s')
    | some (_, q) => (none, { s' with sendmq := q, departed := s.departed + 1 })
  else (none, { s' with sendmq := s.sendmq.setFront m' })

/-- One turn of the loop of `slam_socket_poll_write`; `none` is another turn. -/
def Sender.pollWriteTurn (s : Sender cap) : Option PollWriteEnd × Sender cap :=
  match s.sendmq.items with
  | [] => (some .drained, s)
  | m :: _ =>
    if ¬ m.bytesize < m.bufsize then (some .aborted, s)
    else
      match send (m.bufsize - m.bytesize) s.script with
      | (.lost, script') => (some .lost, { s with script := script' })
      | (.interrupted, script') => (none, { s with script := script' })
      | (.wouldblock, script') => (some .wouldblock, { s with script := script' })
      | (.failed, script') => (some .sendError, { s with script := script' })
      | (.sent len, script') => Sender.advance { s with script := script' } m len

theorem Sender.advance_script (s : Sender cap) (m : Message) (len : ℕ) :
    (s.advance m len).2.script = s.script := by
  unfold Sender.advance
  dsimp only
  split_ifs
  · cases s.sendmq.pop <;> rfl
  · rfl
  · rfl

theorem Sender.pollWriteTurn_script {s s' : Sender cap} (h : s.pollWriteTurn = (none, s')) :
    s'.script.length < s.script.length := by
  unfold Sender.pollWriteTurn at h
  split at h
  · cases h
  · rename_i m rest _
    by_cases hassert : m.bytesize < m.bufsize
    · rw [if_neg (not_not.2 hassert)] at h
      rcases hsend : send (m.bufsize - m.bytesize) s.script with ⟨r, script'⟩
      rw [hsend] at h
      cases r with
      | sent len =>
        have hs' := congrArg (fun p => p.2.script) h
        rw [Sender.advance_script] at hs'
        exact hs' ▸ (send_sent (Nat.sub_pos_of_lt hassert) hsend).2.2
      | interrupted => cases h; exact send_interrupted hsend
      | wouldblock => cases h
      | lost => cases h
      | failed => cases h
    · rw [if_pos hassert] at h
      cases h

/-- `slam_socket_poll_write`. -/
def Sender.pollWrite (s : Sender cap) : PollWriteEnd × Sender cap :=
  match _h : s.pollWriteTurn with
  | (some e, s') => (e, s')
  | (none, s') => s'.pollWrite
termination_by s.script.length
decreasing_by exact Sender.pollWriteTurn_script _h

/-- `slam_socket_write_message`. -/
def Sender.writeMessage (s : Sender cap) (m : Message) : Bool × Sender cap :=
  match s.sendmq.push m with
  | none => (false, s)
  | some q => (true, { s with sendmq := q, accepted := s.accepted ++ [m] })

/-! ### `slam_io_response` -/

/-- `MAX_SOCKET_NUMBER`. -/
def maxSocketNumber : ℤ := 65536

/-- `VALID_SOCKET`. -/
def ValidSocket (fd : ℤ) : Prop := 0 ≤ fd ∧ fd < maxSocketNumber

instance (fd : ℤ) : Decidable (ValidSocket fd) := inferInstanceAs (Decidable (_ ∧ _))

/-- `slam_io_response` on a table of sockets with their `slam_socket_write_message`; `pollout` is
what `slam_poll_set_socket_pollout` returns. -/
def ioResponse {S : Type*} (writeMessage : S → Message → Bool × S) (sockets : ℤ → Option S)
    (message : Message) (pollout : Bool) : Bool × (ℤ → Option S) :=
  if ¬ ValidSocket message.fd then (false, sockets)
  else
    match sockets message.fd with
    | none => (false, sockets)
    | some socket =>
      match writeMessage socket { message with bytesize := 0 } with
      | (false, _) => (false, sockets)
      | (true, socket') => (pollout, Function.update sockets message.fd (some socket'))

/-! ### What the sending side keeps -/

/-- A message as `slam_protocol_encode` leaves it: nothing sent yet, and not empty. -/
structure Message.Unsent (m : Message) : Prop where
  bytesize : m.bytesize = 0
  bufsize_pos : 0 < m.bufsize
  length : m.buf.length = m.bufsize

theorem encodedMessage_unsent (fd msgid : ℤ) (payload : List Byte) :
    (encodedMessage fd msgid payload).Unsent :=
  ⟨rfl, encodedMessage_bufsize_pos _ _ _, encodedMessage_length _ _ _⟩

/-- The bytes of some messages in a row. -/
def bufs (ms : List Message) : List Byte := ms.flatMap Message.buf

@[simp] theorem bufs_nil : bufs [] = [] := rfl

@[simp] theorem bufs_cons (m : Message) (ms : List Message) : bufs (m :: ms) = m.buf ++ bufs ms :=
  List.flatMap_cons

@[simp] theorem bufs_append (ms ms' : List Message) : bufs (ms ++ ms') = bufs ms ++ bufs ms' :=
  List.flatMap_append

/-- Messages of which the first has been sent up to byte `k`. -/
def progress (k : ℕ) : List Message → List Message
  | [] => []
  | m :: ms => { m with bytesize := k } :: ms

/-- The invariant of the sending side: the accepted messages are those gone, whose bytes are all on
the wire, and those pending, of which the first is on the wire up to a byte `k` before its end. -/
def Sender.Sound (s : Sender cap) : Prop :=
  (∀ m ∈ s.accepted, m.Unsent) ∧ ∃ gone pending k, s.accepted = gone ++ pending ∧
    s.departed = gone.length ∧ s.sendmq.items = progress k pending ∧
    s.wire = bufs gone ++ (bufs pending).take k ∧ (∀ m ∈ pending.head?, k < m.bufsize) ∧
    (pending = [] → k = 0)

theorem Sender.sound_new (script : List SendAnswer) : (Sender.new cap script).Sound :=
  ⟨by simp [Sender.new], [], [], 0, rfl, rfl, rfl, rfl, by simp, fun _ => rfl⟩

theorem Sender.Sound.script {s : Sender cap} (h : s.Sound) (script' : List SendAnswer) :
    Sender.Sound { s with script := script' } := h

/-- Bytes accepted by `send` move the message at the head, or let it go. -/
theorem Sender.Sound.advance {s : Sender cap} (h : s.Sound) {m : Message} {rest : List Message}
    (hm : s.sendmq.items = m :: rest) {len : ℕ} (hlen : len ≤ m.bufsize - m.bytesize) :
    (s.advance m len).1 = none ∧ (s.advance m len).2.Sound := by
  obtain ⟨hunsent, gone, pending, k, hacc, hdep, hitems, hwire, hk, hk0⟩ := h
  cases pending with
  | nil => rw [hm] at hitems; cases hitems
  | cons m₀ ms =>
    rw [hm, progress, List.cons.injEq] at hitems
    obtain ⟨rfl, rfl⟩ := hitems
    have hu : m₀.Unsent := hunsent m₀ (by rw [hacc]; simp)
    have hkm : k < m₀.bufsize := hk m₀ rfl
    have hkl : k ≤ m₀.buf.length := by rw [hu.length]; exact hkm.le
    dsimp only at hlen
    -- Whether or not the message is complete, the wire has grown by the next `len` bytes of it.
    have htake : ∀ j ≤ m₀.buf.length, (bufs (m₀ :: rest)).take j = m₀.buf.take j := fun j hj => by
      rw [bufs_cons, List.take_append_of_le_length hj]
    have hgrow : s.wire ++ (m₀.buf.drop k).take len = bufs gone ++ m₀.buf.take (k + len) := by
      rw [hwire, htake k hkl, List.append_assoc, List.take_add]
    have hle : k + len ≤ m₀.bufsize := by omega
    rcases hpop : s.sendmq.pop with _ | ⟨x, q⟩
    · rw [BoundedFifo.pop_eq_none_iff, hm] at hpop
      cases hpop
    have hq : q.items = rest := by
      have := BoundedFifo.pop_eq_some_iff.1 hpop
      rw [hm, List.cons.injEq] at this
      exact this.2.symm
    by_cases hend : k + len = m₀.bufsize
    · -- The last byte is accepted: the message goes.
      have hall : m₀.buf.take (k + len) = m₀.buf := by
        rw [hend, ← hu.length, List.take_length]
      simp only [Sender.advance, hend, le_refl, hpop, not_true_eq_false, if_false, if_true, true_and]
      refine ⟨hunsent, gone ++ [m₀], rest, 0, ?_, ?_, ?_, ?_, ?_, fun _ => rfl⟩
      · simpa using hacc
      · simp [hdep]
      · rw [hq]
        cases rest with
        | nil => rfl
        | cons m₁ ms =>
          have h0 : m₁.bytesize = 0 := (hunsent m₁ (by rw [hacc]; simp)).bytesize
          rw [progress, ← h0]
      · rw [hgrow, hall]; simp
      · intro m₁ hm₁
        exact (hunsent m₁ (by
          rw [hacc]; exact List.mem_append_right _ (List.mem_cons_of_mem _
            (List.mem_of_mem_head? hm₁)))).bufsize_pos
    · simp only [Sender.advance, hle, hend, not_true_eq_false, if_false, true_and]
      refine ⟨hunsent, gone, m₀ :: rest, k + len, hacc, hdep, ?_, ?_, ?_, by simp⟩
      · rw [BoundedFifo.setFront_items hm, progress]
      · rw [hgrow, htake _ (by rw [hu.length]; exact hle)]
      · rintro m ⟨rfl⟩
        exact lt_of_le_of_ne hle hend

/-- One turn of the loop keeps the invariant, and no assertion fails. -/
theorem Sender.Sound.pollWriteTurn {s : Sender cap} (h : s.Sound) :
    s.pollWriteTurn.1 ≠ some .aborted ∧ s.pollWriteTurn.2.Sound := by
  unfold Sender.pollWriteTurn
  split
  · exact ⟨by simp, h⟩
  · rename_i m rest hm
    -- The assertion of the source: a complete message never stays at the head of the queue.
    have hassert : m.bytesize < m.bufsize := by
      obtain ⟨-, gone, pending, k, -, -, hitems, -, hk, -⟩ := h
      cases pending with
      | nil => rw [hm] at hitems; cases hitems
      | cons m₀ ms =>
        rw [hm, progress, List.cons.injEq] at hitems
        obtain ⟨rfl, rfl⟩ := hitems
        exact hk m₀ rfl
    rw [if_neg (not_not.2 hassert)]
    rcases hsend : send (m.bufsize - m.bytesize) s.script with ⟨r, script'⟩
    cases r with
    | sent len =>
      have hlen := (send_sent (Nat.sub_pos_of_lt hassert) hsend).2.1
      obtain ⟨hnone, hsound⟩ := (h.script script').advance hm hlen
      exact ⟨by simp [hnone], hsound⟩
    | interrupted => exact ⟨by simp, h⟩
    | wouldblock => exact ⟨by simp, h⟩
    | lost => exact ⟨by simp, h⟩
    | failed => exact ⟨by simp, h⟩

/-- So does a whole call. -/
theorem Sender.Sound.pollWrite {s : Sender cap} (h : s.Sound) :
    s.pollWrite.1 ≠ .aborted ∧ s.pollWrite.2.Sound := by
  fun_induction Sender.pollWrite s with
  | case1 s e s' hturn =>
    have := h.pollWriteTurn
    rw [hturn] at this
    simpa using this
  | case2 s s' hturn ih =>
    have := h.pollWriteTurn
    rw [hturn] at this
    exact ih this.2

/-- A message that has not been sent may be appended at any time. -/
theorem Sender.Sound.writeMessage {s : Sender cap} (h : s.Sound) {m : Message} (hm : m.Unsent) :
    (s.writeMessage m).2.Sound := by
  unfold Sender.writeMessage
  rcases hpush : s.sendmq.push m with _ | q
  · exact h
  · obtain ⟨hunsent, gone, pending, k, hacc, hdep, hitems, hwire, hk, hk0⟩ := h
    obtain ⟨-, hq⟩ := BoundedFifo.push_eq_some_iff.1 hpush
    refine ⟨?_, gone, pending ++ [m], k, ?_, hdep, ?_, ?_, ?_, by simp⟩
    · intro m' hm'
      rcases List.mem_append.1 hm' with hold | hnew
      · exact hunsent m' hold
      · rw [List.mem_singleton] at hnew
        exact hnew ▸ hm
    · rw [hacc, List.append_assoc]
    · dsimp only
      rw [hq, hitems]
      cases pending with
      | nil =>
        have h0 := hm.bytesize
        rw [hk0 rfl]
        simp only [progress, List.nil_append]
        rw [← h0]
      | cons m₀ ms => rfl
    · dsimp only
      rw [hwire]
      cases pending with
      | nil => rw [hk0 rfl]; simp
      | cons m₀ ms =>
        have hlen : k ≤ (bufs (m₀ :: ms)).length := by
          have hlt := hk m₀ rfl
          have := (hunsent m₀ (by rw [hacc]; simp)).length
          simp only [bufs_cons, List.length_append]
          omega
        rw [bufs_append, List.take_append_of_le_length hlen]
    · cases pending with
      | nil =>
        rintro m' ⟨rfl⟩
        rw [hk0 rfl]
        exact hm.bufsize_pos
      | cons m₀ ms => exact hk

/-! ### Integrity of the sending side -/

/-- Nothing of the message has been sent. -/
def Message.rewind (m : Message) : Message := { m with bytesize := 0 }

/-- What is on the wire is a prefix of the accepted messages in enqueue order; the queue holds those
that have not departed; and a message has departed exactly when its last byte is on the wire. -/
structure Sender.Integrity (s : Sender cap) : Prop where
  wire_prefix : s.wire <+: bufs s.accepted
  held : s.sendmq.items.map Message.rewind = s.accepted.drop s.departed
  departed_iff : ∀ j < s.accepted.length,
    j < s.departed ↔ (bufs (s.accepted.take (j + 1))).length ≤ s.wire.length

theorem Sender.Sound.integrity {s : Sender cap} (h : s.Sound) : s.Integrity := by
  obtain ⟨hunsent, gone, pending, k, hacc, hdep, hitems, hwire, hk, hk0⟩ := h
  refine ⟨?_, ?_, ?_⟩
  · rw [hwire, hacc, bufs_append]
    exact (List.prefix_append_right_inj _).2 (List.take_prefix _ _)
  · have hrewind : ∀ m ∈ pending, m.rewind = m := fun m hm => by
      have h0 := (hunsent m (hacc ▸ List.mem_append_right _ hm)).bytesize
      rw [Message.rewind, ← h0]
    rw [hitems, hacc, hdep, List.drop_left]
    cases pending with
    | nil => rfl
    | cons m₀ ms =>
      rw [progress, List.map_cons, List.map_congr_left fun m hm =>
        hrewind m (List.mem_cons_of_mem _ hm), List.map_id', List.cons.injEq]
      exact ⟨hrewind m₀ (List.mem_cons_self ..), rfl⟩
  · intro j hj
    have hwlen : s.wire.length = (bufs gone).length + min k (bufs pending).length := by
      rw [hwire, List.length_append, List.length_take]
    rw [hdep, hwlen]
    constructor
    · intro hlt
      have hprefix : bufs (s.accepted.take (j + 1)) <+: bufs gone := by
        rw [hacc, List.take_append_of_le_length (by omega)]
        conv_rhs => rw [← List.take_append_drop (j + 1) gone, bufs_append]
        exact List.prefix_append _ _
      exact hprefix.length_le.trans (Nat.le_add_right _ _)
    · intro hle
      by_contra hge
      cases pending with
      | nil => simp [hacc] at hj; omega
      | cons m₀ ms =>
        have hu := (hunsent m₀ (by rw [hacc]; simp)).length
        have hkm := hk m₀ rfl
        obtain ⟨d, hd⟩ : ∃ d, j + 1 = gone.length + (d + 1) := ⟨j - gone.length, by omega⟩
        rw [hacc, hd, List.take_length_add_append, List.take_succ_cons, bufs_append, bufs_cons,
          List.length_append, List.length_append] at hle
        omega

/-- A call on the sockets of the io thread. The messages are those of `slam_protocol_encode`. -/
inductive SendCall
  | ioResponse (fd msgid : ℤ) (payload : List Byte) (pollout : Bool)
  | writeMessage (socket : ℤ) (fd msgid : ℤ) (payload : List Byte)
  | pollWrite (socket : ℤ)

/-- What a call comes back with; `noSocket` is a call that has no socket to be made on. -/
inductive SendReply
  | returned (rc : Bool)
  | aborted
  | noSocket
  deriving DecidableEq

/-- One call. -/
def sendCall (sockets : ℤ → Option (Sender cap)) :
    SendCall → SendReply × (ℤ → Option (Sender cap))
  | .ioResponse fd msgid payload pollout =>
    match ioResponse Sender.writeMessage sockets (encodedMessage fd msgid payload) pollout with
    | (rc, sockets') => (.returned rc, sockets')
  | .writeMessage socket fd msgid payload =>
    match sockets socket with
    | none => (.noSocket, sockets)
    | some s =>
      match s.writeMessage (encodedMessage fd msgid payload) with
      | (rc, s') => (.returned rc, Function.update sockets socket (some s'))
  | .pollWrite socket =>
    match sockets socket with
    | none => (.noSocket, sockets)
    | some s =>
      match s.pollWrite with
      | (.aborted, s') => (.aborted, Function.update sockets socket (some s'))
      | (e, s') => (.returned e.rc, Function.update sockets socket (some s'))

/-- A sequence of calls. -/
def sendCalls (sockets : ℤ → Option (Sender cap)) :
    List SendCall → List SendReply × (ℤ → Option (Sender cap))
  | [] => ([], sockets)
  | c :: cs =>
    match sendCall sockets c with
    | (r, sockets') => (r :: (sendCalls sockets' cs).1, (sendCalls sockets' cs).2)

/-- Every open socket satisfies the invariant. -/
def AllSound (sockets : ℤ → Option (Sender cap)) : Prop :=
  ∀ fd s, sockets fd = some s → s.Sound

theorem AllSound.update {sockets : ℤ → Option (Sender cap)} (h : AllSound sockets) (fd : ℤ)
    {s : Sender cap} (hs : s.Sound) : AllSound (Function.update sockets fd (some s)) := by
  intro fd' s' hs'
  by_cases heq : fd' = fd
  · subst heq
    rw [Function.update_self] at hs'
    cases hs'
    exact hs
  · rw [Function.update_of_ne heq] at hs'
    exact h fd' s' hs'

theorem AllSound.ioResponse {sockets : ℤ → Option (Sender cap)} (h : AllSound sockets) {m : Message}
    (hm : m.Unsent) (pollout : Bool) :
    AllSound (ioResponse Sender.writeMessage sockets m pollout).2 := by
  unfold Slam.ioResponse
  by_cases hvalid : ValidSocket m.fd
  · rw [if_neg (not_not.2 hvalid)]
    rcases hsock : sockets m.fd with _ | s
    · exact h
    · have hsent : ({ m with bytesize := 0 } : Message).Unsent := ⟨rfl, hm.bufsize_pos, hm.length⟩
      have hw := (h m.fd s hsock).writeMessage hsent
      rcases hwrite : s.writeMessage { m with bytesize := 0 } with ⟨_ | _, s'⟩
      · simpa only [hwrite] using h
      · rw [hwrite] at hw
        simpa only [hwrite] using h.update m.fd hw
  · rw [if_pos hvalid]
    exact h

/-- One call keeps the invariant of every socket, and no assertion fails. -/
theorem AllSound.sendCall {sockets : ℤ → Option (Sender cap)} (h : AllSound sockets)
    (c : SendCall) : (sendCall sockets c).1 ≠ .aborted ∧ AllSound (sendCall sockets c).2 := by
  cases c with
  | ioResponse fd msgid payload pollout =>
    exact ⟨by simp [Slam.sendCall], h.ioResponse (encodedMessage_unsent fd msgid payload) pollout⟩
  | writeMessage socket fd msgid payload =>
    rcases hsock : sockets socket with _ | s <;> simp only [Slam.sendCall, hsock]
    · exact ⟨by simp, h⟩
    · exact ⟨by simp, h.update socket
        ((h socket s hsock).writeMessage (encodedMessage_unsent fd msgid payload))⟩
  | pollWrite socket =>
    rcases hsock : sockets socket with _ | s <;> simp only [Slam.sendCall, hsock]
    · exact ⟨by simp, h⟩
    · obtain ⟨hne, hsound⟩ := (h socket s hsock).pollWrite
      rcases hpoll : s.pollWrite with ⟨e, s'⟩
      rw [hpoll] at hne hsound
      cases e with
      | aborted => exact absurd rfl hne
      | drained => exact ⟨by simp, h.update socket hsound⟩
      | wouldblock => exact ⟨by simp, h.update socket hsound⟩
      | lost => exact ⟨by simp, h.update socket hsound⟩
      | sendError => exact ⟨by simp, h.update socket hsound⟩

/-- A sequence of calls keeps the invariant of every socket, and no assertion fails. -/
theorem AllSound.sendCalls {sockets : ℤ → Option (Sender cap)} (h : AllSound sockets)
    (cs : List SendCall) :
    (∀ r ∈ (sendCalls sockets cs).1, r ≠ .aborted) ∧ AllSound (sendCalls sockets cs).2 := by
  induction cs generalizing sockets with
  | nil => exact ⟨by simp [Slam.sendCalls], h⟩
  | cons c cs ih =>
    obtain ⟨hne, hsound⟩ := h.sendCall c
    obtain ⟨hrest, hend⟩ := ih hsound
    refine ⟨?_, hend⟩
    intro r hr
    rcases List.mem_cons.1 hr with rfl | hr
    · exact hne
    · exact hrest r hr

/-- **Send path integrity.** However `slam_io_response`, `slam_socket_write_message` and
`slam_socket_poll_write` are called on sockets that start out new, and whatever `send` answers, no
assertion fails and the bytes on each wire are a prefix of what was enqueued there, a message leaving
the queue exactly when its last byte is accepted. -/
theorem sendCalls_integrity (sockets : ℤ → Option (Sender cap))
    (hnew : ∀ fd s, sockets fd = some s → ∃ script, s = Sender.new cap script)
    (cs : List SendCall) :
    (∀ r ∈ (sendCalls sockets cs).1, r ≠ .aborted) ∧
      ∀ fd s, (sendCalls sockets cs).2 fd = some s → s.Integrity := by
  have hstart : AllSound sockets := fun fd s hs => by
    obtain ⟨script, rfl⟩ := hnew fd s hs
    exact Sender.sound_new script
  obtain ⟨hreplies, hend⟩ := hstart.sendCalls cs
  exact ⟨hreplies, fun fd s hs => (hend fd s hs).integrity⟩

/-- One connection on descriptor 3: `send` takes five bytes and blocks, then takes the rest of the
first message and seven bytes of the second. -/
def partialSends : ℤ → Option (Sender 4) := fun fd =>
  if fd = 3 then some (Sender.new 4 [.accept 4, .eagain, .eintr, .accept 99, .accept 6]) else none

/-- The calls made on it. -/
def partialSendCalls : List SendCall :=
  [.ioResponse 3 1 [8] true, .pollWrite 3, .ioResponse 3 2 [9, 9] true, .ioResponse 4 2 [] true,
    .pollWrite 3]

theorem sendCalls_integrity_partial :
    ((sendCalls partialSends partialSendCalls).2 3).map (fun s => (s.wire.length, s.departed)) =
        some (26, 1) ∧
      (∀ r ∈ (sendCalls partialSends partialSendCalls).1, r ≠ .aborted) ∧
      ∀ fd s, (sendCalls partialSends partialSendCalls).2 fd = some s → s.Integrity := by
  refine ⟨by decide +kernel, sendCalls_integrity partialSends ?_ partialSendCalls⟩
  intro fd s hs
  unfold partialSends at hs
  split_ifs at hs
  cases hs
  exact ⟨_, rfl⟩

end Slam
