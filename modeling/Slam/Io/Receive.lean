import Slam.Io.Message

/-!
# `io/slam_socket.c`: the receiving side of a connection

`slam_socket_poll_read` turns the byte stream of a connection into messages. It is resumable: the
message under construction stays in `socket->readmessage` between calls, and a call ends when
`recv` would block. A frame starts with its own length in four bytes, which are read first; the
rest is read into a buffer of that length, and a full buffer is pushed to `readmq`.

What `recv` does is a *script*: the answers of its successive calls. A `data` answer longer than
the caller asked for is split, so a script can make every call return any positive number of bytes
not above what was asked. A script that is used up answers `EAGAIN`.

The queue is any type with a push that may refuse. `PollReadEnd` has one constructor for each
`return` of the source.
-/

namespace Slam

/-! ### `recv` -/

/-- How the kernel answers a call of `recv`. -/
inductive RecvAnswer
  | data (b : Byte) (bs : List Byte)
  | eintr
  | eagain
  | eof
  | error
  deriving DecidableEq

/-- The bytes an answer delivers. -/
def RecvAnswer.bytes : RecvAnswer → List Byte
  | .data b bs => b :: bs
  | _ => []

/-- A bound on the number of calls an answer can serve. -/
def RecvAnswer.weight (a : RecvAnswer) : ℕ := a.bytes.length + 1

/-- The byte stream that a script delivers. -/
def streamBytes (script : List RecvAnswer) : List Byte := script.flatMap RecvAnswer.bytes

/-- A bound on the number of calls a script can serve. -/
def scriptWeight (script : List RecvAnswer) : ℕ := (script.map RecvAnswer.weight).sum

@[simp] theorem streamBytes_nil : streamBytes [] = [] := rfl

@[simp] theorem streamBytes_cons (a : RecvAnswer) (s : List RecvAnswer) :
    streamBytes (a :: s) = a.bytes ++ streamBytes s := List.flatMap_cons

@[simp] theorem scriptWeight_nil : scriptWeight [] = 0 := rfl

@[simp] theorem scriptWeight_cons (a : RecvAnswer) (s : List RecvAnswer) :
    scriptWeight (a :: s) = a.weight + scriptWeight s := by
  simp [scriptWeight]

/-- What one call of `recv` reports. -/
inductive RecvResult
  | bytes (chunk : List Byte)
  | interrupted
  | wouldblock
  | lost
  | failed

/-- The bytes that a result has put into the caller's buffer. -/
def RecvResult.chunk : RecvResult → List Byte
  | .bytes chunk => chunk
  | _ => []

/-- `recv` with room for `len` bytes. -/
def recv (len : ℕ) : List RecvAnswer → RecvResult × List RecvAnswer
  | [] => (.wouldblock, [])
  | .data b bs :: script =>
    match (b :: bs).drop len with
    | [] => (.bytes (b :: bs), script)
    | b' :: bs' => (.bytes ((b :: bs).take len), .data b' bs' :: script)
  | .eintr :: script => (.interrupted, script)
  | .eagain :: script => (.wouldblock, script)
  | .eof :: script => (.lost, script)
  | .error :: script => (.failed, script)

theorem recv_nil (len : ℕ) : recv len [] = (.wouldblock, []) := rfl

/-- A call takes its bytes off the stream, at most as many as asked and not none, and uses up part
of the script. -/
theorem recv_spec {len : ℕ} (hlen : 0 < len) {s s' : List RecvAnswer} {r : RecvResult}
    (h : recv len s = (r, s')) :
    streamBytes s = r.chunk ++ streamBytes s' ∧ r.chunk.length ≤ len ∧
      (∀ chunk, r = .bytes chunk → 0 < chunk.length) ∧
      (s ≠ [] → scriptWeight s' < scriptWeight s) := by
  match s with
  | [] => cases h; simp [RecvResult.chunk]
  | .eintr :: s => cases h; simp [RecvResult.chunk, RecvAnswer.bytes, RecvAnswer.weight]
  | .eagain :: s => cases h; simp [RecvResult.chunk, RecvAnswer.bytes, RecvAnswer.weight]
  | .eof :: s => cases h; simp [RecvResult.chunk, RecvAnswer.bytes, RecvAnswer.weight]
  | .error :: s => cases h; simp [RecvResult.chunk, RecvAnswer.bytes, RecvAnswer.weight]
  | .data b bs :: s =>
    simp only [recv] at h
    split at h
    · rename_i hdrop
      have hlong : (b :: bs).length ≤ len := List.drop_eq_nil_iff.1 hdrop
      cases h
      simp [RecvResult.chunk, RecvAnswer.bytes, RecvAnswer.weight] at hlong ⊢
      omega
    · rename_i b' bs' hdrop
      have hsplit := List.take_append_drop len (b :: bs)
      have hlens := congrArg List.length hsplit
      have hdropLen := congrArg List.length hdrop
      cases h
      simp only [RecvResult.chunk, RecvAnswer.bytes, RecvAnswer.weight, streamBytes_cons,
        scriptWeight_cons, List.length_cons, List.length_append, List.length_drop,
        List.length_take] at hlens hdropLen ⊢
      refine ⟨by rw [← hdrop, ← List.append_assoc, hsplit], by omega, ?_, fun _ => by omega⟩
      rintro chunk ⟨rfl⟩
      simp only [List.length_take, List.length_cons]
      omega

/-! ### `slam_socket_read_bytes` -/

/-- `slam_socket_read_bytes`, with `buf` read so far: `none` is `SLAM_ERROR`. -/
def readBytes (bufsize : ℕ) (script : List RecvAnswer) (buf : List Byte) :
    Option (List Byte) × List RecvAnswer :=
  if _hroom : buf.length < bufsize then
    match _hr : recv (bufsize - buf.length) script with
    | (.lost, script') => (none, script')
    | (.interrupted, script') => readBytes bufsize script' buf
    | (.wouldblock, script') => (some buf, script')
    | (.failed, script') => (none, script')
    | (.bytes chunk, script') => readBytes bufsize script' (buf ++ chunk)
  else (some buf, script)
termination_by scriptWeight script
decreasing_by
  all_goals
    have hs : script ≠ [] := by rintro rfl; simp [recv_nil] at _hr
    exact (recv_spec (Nat.sub_pos_of_lt _hroom) _hr).2.2.2 hs

/-- The bytes read are taken off the front of the stream, and fit; a call that has room makes
progress on the script. -/
theorem readBytes_spec {n : ℕ} {s s' : List RecvAnswer} {buf buf' : List Byte}
    (h : readBytes n s buf = (some buf', s')) (hbuf : buf.length ≤ n) :
    ∃ got, buf' = buf ++ got ∧ streamBytes s = got ++ streamBytes s' ∧ buf'.length ≤ n ∧
      scriptWeight s' ≤ scriptWeight s ∧
      (s ≠ [] → buf.length < n → scriptWeight s' < scriptWeight s) := by
  fun_induction readBytes n s buf with
  | case1 s buf hroom s₁ hr => cases h
  | case2 s buf hroom s₁ hr ih =>
    obtain ⟨hstream, -, -, hweight⟩ := recv_spec (Nat.sub_pos_of_lt hroom) hr
    have hlt := hweight (by rintro rfl; simp [recv_nil] at hr)
    obtain ⟨got, hgot, hrest, hle, hdec, -⟩ := ih h hbuf
    exact ⟨got, hgot, hstream.trans hrest, hle, by omega, fun _ _ => by omega⟩
  | case3 s buf hroom s₁ hr =>
    obtain ⟨hstream, -, -, hweight⟩ := recv_spec (Nat.sub_pos_of_lt hroom) hr
    cases h
    refine ⟨[], by simp, hstream, hbuf, ?_, fun hs _ => hweight hs⟩
    by_cases hs : s = []
    · subst hs
      cases hr
      exact le_rfl
    · exact (hweight hs).le
  | case4 s buf hroom s₁ hr => cases h
  | case5 s buf hroom chunk s₁ hr ih =>
    obtain ⟨hstream, hlen, -, hweight⟩ := recv_spec (Nat.sub_pos_of_lt hroom) hr
    have hlt := hweight (by rintro rfl; simp [recv_nil] at hr)
    simp only [RecvResult.chunk] at hstream hlen
    obtain ⟨got, hgot, hrest, hle, hdec, -⟩ := ih h (by simp only [List.length_append]; omega)
    refine ⟨chunk ++ got, ?_, ?_, hle, by omega, fun _ _ => by omega⟩
    · rw [hgot, List.append_assoc]
    · rw [hstream, hrest, List.append_assoc]
  | case6 s buf hroom =>
    cases h
    exact ⟨[], by simp, rfl, hbuf, le_rfl, fun _ hlt => absurd hlt hroom⟩

/-! ### `slam_socket_poll_read` -/

/-- The places where `slam_socket_poll_read` ends. `aborted` is a failed `assert`. -/
inductive PollReadEnd
  | wouldblock
  | readError
  | shortLen
  | lenBelowMinimum
  | lenAboveMaximum
  | mqFull
  | aborted
  deriving DecidableEq

/-- The value returned there. -/
def PollReadEnd.rc (e : PollReadEnd) : Bool := e = .wouldblock

/-- What `slam_socket_poll_read` works on: the socket's `readmessage`, the queue, the answers
`recv` has still to give, and the messages that the queue has accepted. -/
structure Receiver (Q : Type*) where
  readmessage : Option Message
  readmq : Q
  script : List RecvAnswer
  pushed : List Message

/-- A connection as `slam_socket_newfd` leaves it. -/
def Receiver.new {Q : Type*} (readmq : Q) (script : List RecvAnswer) : Receiver Q :=
  ⟨none, readmq, script, []⟩

/-- The received part of the message under construction. -/
def Receiver.pending {Q : Type*} (r : Receiver Q) : List Byte :=
  match r.readmessage with
  | none => []
  | some m => m.buf.take m.bytesize

/-- Copy received bytes behind those the message already has. -/
def Message.receive (m : Message) (bytes : List Byte) : Message :=
  { m with buf := memcpyAt m.buf m.bytesize bytes, bytesize := m.bytesize + bytes.length }

section PollRead

variable {Q : Type*} (pushBack : Q → Message → Option Q) (maxPackageSize : ℕ) (fd : ℤ)

/-- The first stage of the loop body: read a length and allocate the message. -/
def pollReadLen (script : List RecvAnswer) : Except PollReadEnd Message × List RecvAnswer :=
  match readBytes msglenSize script [] with
  | (none, script') => (.error .readError, script')
  | (some len, script') =>
    if len.length = 0 then (.error .wouldblock, script')
    else if len.length ≠ msglenSize then (.error .shortLen, script')
    else if ¬ leValue len ≥ packageMinSize then (.error .lenBelowMinimum, script')
    else if ¬ leValue len < maxPackageSize then (.error .lenAboveMaximum, script')
    else (.ok ((Message.new fd .protobufPackage (leValue len)).receive len), script')

/-- The second stage: push the message `m` if it is complete, else read more of it. `none` is
another turn of the loop. -/
def pollReadBody (m : Message) (r : Receiver Q) : Option PollReadEnd × Receiver Q :=
  if ¬ m.bytesize ≤ m.bufsize then (some .aborted, r)
  else if m.bytesize = m.bufsize then
    match pushBack r.readmq m with
    | none => (some .mqFull, r)
    | some q => (none, { r with readmessage := none, readmq := q, pushed := r.pushed ++ [m] })
  else
    match readBytes (m.bufsize - m.bytesize) r.script [] with
    | (none, script') => (some .readError, { r with script := script' })
    | (some bytes, script') =>
      if bytes.length = 0 then (some .wouldblock, { r with script := script' })
      else
        let m' := m.receive bytes
        if m'.bytesize ≤ m'.bufsize then
          (none, { r with readmessage := some m', script := script' })
        else (some .aborted, { r with readmessage := some m', script := script' })

/-- One turn of the loop of `slam_socket_poll_read`. -/
def pollReadTurn (r : Receiver Q) : Option PollReadEnd × Receiver Q :=
  match r.readmessage with
  | some m => pollReadBody pushBack m r
  | none =>
    match pollReadLen maxPackageSize fd r.script with
    | (.error e, script') => (some e, { r with script := script' })
    | (.ok m, script') =>
      pollReadBody pushBack m { r with readmessage := some m, script := script' }

variable {pushBack} {maxPackageSize} {fd}

/-- The loop variant: what is left of the script, and whether a complete message waits. -/
def Receiver.weight (r : Receiver Q) : ℕ :=
  2 * scriptWeight r.script +
    match r.readmessage with
    | none => 0
    | some m => if m.bytesize = m.bufsize then 1 else 0

theorem Receiver.weight_le (r : Receiver Q) : r.weight ≤ 2 * scriptWeight r.script + 1 := by
  unfold Receiver.weight
  split
  · omega
  · split_ifs <;> omega

/-- Bytes were read, so the script has become shorter. -/
theorem readBytes_weight_lt {n : ℕ} {s s' : List RecvAnswer} {bytes : List Byte}
    (h : readBytes n s [] = (some bytes, s')) (hne : bytes.length ≠ 0) :
    scriptWeight s' < scriptWeight s := by
  obtain ⟨got, hgot, hstream, hle, -, hlt⟩ := readBytes_spec h (Nat.zero_le _)
  rw [List.nil_append] at hgot
  subst hgot
  refine hlt ?_ (by simp only [List.length_nil]; omega)
  rintro rfl
  rw [streamBytes_nil, eq_comm, List.append_eq_nil_iff] at hstream
  simp [hstream.1] at hne

/-- Everything the second stage can do. Its second assertion cannot fail, since `readBytes` never
returns more than it was asked for. -/
theorem pollReadBody_cases (pushBack : Q → Message → Option Q) (m : Message) (r : Receiver Q) :
    (¬ m.bytesize ≤ m.bufsize ∧ pollReadBody pushBack m r = (some .aborted, r)) ∨
    (m.bytesize = m.bufsize ∧ pushBack r.readmq m = none ∧
      pollReadBody pushBack m r = (some .mqFull, r)) ∨
    (∃ q, m.bytesize = m.bufsize ∧ pushBack r.readmq m = some q ∧ pollReadBody pushBack m r =
      (none, { r with readmessage := none, readmq := q, pushed := r.pushed ++ [m] })) ∨
    (∃ s', m.bytesize < m.bufsize ∧
      readBytes (m.bufsize - m.bytesize) r.script [] = (none, s') ∧
      pollReadBody pushBack m r = (some .readError, { r with script := s' })) ∨
    (∃ s', m.bytesize < m.bufsize ∧
      readBytes (m.bufsize - m.bytesize) r.script [] = (some [], s') ∧
      pollReadBody pushBack m r = (some .wouldblock, { r with script := s' })) ∨
    (∃ bytes s', m.bytesize < m.bufsize ∧
      readBytes (m.bufsize - m.bytesize) r.script [] = (some bytes, s') ∧
      0 < bytes.length ∧ m.bytesize + bytes.length ≤ m.bufsize ∧
      pollReadBody pushBack m r =
        (none, { r with readmessage := some (m.receive bytes), script := s' })) := by
  by_cases hassert : m.bytesize ≤ m.bufsize
  · by_cases hfull : m.bytesize = m.bufsize
    · cases hpush : pushBack r.readmq m with
      | none => exact .inr (.inl ⟨hfull, rfl, by simp [pollReadBody, hfull, hpush]⟩)
      | some q => exact .inr (.inr (.inl ⟨q, hfull, rfl, by simp [pollReadBody, hfull, hpush]⟩))
    · have hlt : m.bytesize < m.bufsize := lt_of_le_of_ne hassert hfull
      rcases hread : readBytes (m.bufsize - m.bytesize) r.script [] with ⟨_ | bytes, s'⟩
      · exact .inr (.inr (.inr (.inl
          ⟨s', hlt, rfl, by simp [pollReadBody, hassert, hfull, hread]⟩)))
      · -- `readBytes` keeps to the room it was given, which is what the message still lacks.
        obtain ⟨got, hgot, -, hle, -⟩ := readBytes_spec hread (Nat.zero_le _)
        by_cases hzero : bytes.length = 0
        · obtain rfl := List.length_eq_zero_iff.1 hzero
          exact .inr (.inr (.inr (.inr (.inl
            ⟨s', hlt, rfl, by simp [pollReadBody, hassert, hfull, hread]⟩))))
        · have hfit : m.bytesize + bytes.length ≤ m.bufsize := by omega
          exact .inr (.inr (.inr (.inr (.inr ⟨bytes, s', hlt, rfl, Nat.pos_of_ne_zero hzero, hfit,
            by simp [pollReadBody, hassert, hfull, hread, hzero, Message.receive, hfit]⟩))))
  · exact .inl ⟨hassert, by simp [pollReadBody, hassert]⟩

/-- Everything the first stage can do. -/
theorem pollReadLen_cases (maxPackageSize : ℕ) (fd : ℤ) (s : List RecvAnswer) :
    (∃ s', readBytes msglenSize s [] = (none, s') ∧
      pollReadLen maxPackageSize fd s = (.error .readError, s')) ∨
    (∃ s', readBytes msglenSize s [] = (some [], s') ∧
      pollReadLen maxPackageSize fd s = (.error .wouldblock, s')) ∨
    (∃ len s', readBytes msglenSize s [] = (some len, s') ∧ 0 < len.length ∧
      len.length < msglenSize ∧ pollReadLen maxPackageSize fd s = (.error .shortLen, s')) ∨
    (∃ len s', readBytes msglenSize s [] = (some len, s') ∧ len.length = msglenSize ∧
      leValue len < packageMinSize ∧
      pollReadLen maxPackageSize fd s = (.error .lenBelowMinimum, s')) ∨
    (∃ len s', readBytes msglenSize s [] = (some len, s') ∧ len.length = msglenSize ∧
      maxPackageSize ≤ leValue len ∧
      pollReadLen maxPackageSize fd s = (.error .lenAboveMaximum, s')) ∨
    (∃ len s', readBytes msglenSize s [] = (some len, s') ∧ len.length = msglenSize ∧
      packageMinSize ≤ leValue len ∧ leValue len < maxPackageSize ∧
      pollReadLen maxPackageSize fd s =
        (.ok ((Message.new fd .protobufPackage (leValue len)).receive len), s')) := by
  rcases hread : readBytes msglenSize s [] with ⟨_ | len, s'⟩
  · exact .inl ⟨s', rfl, by simp [pollReadLen, hread]⟩
  · obtain ⟨got, hgot, -, hle, -⟩ := readBytes_spec hread (Nat.zero_le _)
    by_cases h0 : len.length = 0
    · obtain rfl := List.length_eq_zero_iff.1 h0
      exact .inr (.inl ⟨s', rfl, by simp [pollReadLen, hread]⟩)
    have hpos := Nat.pos_of_ne_zero h0
    have h4 : ¬ msglenSize = 0 := by decide
    by_cases h1 : len.length = msglenSize
    · by_cases h2 : leValue len ≥ packageMinSize
      · by_cases h3 : leValue len < maxPackageSize
        · exact .inr (.inr (.inr (.inr (.inr ⟨len, s', rfl, h1, h2, h3, by
            simp only [pollReadLen, hread, h4, h1, h2, h3, if_false, ne_eq, not_true_eq_false]⟩))))
        · exact .inr (.inr (.inr (.inr (.inl ⟨len, s', rfl, h1, not_lt.1 h3, by
            simp only [pollReadLen, hread, h4, h1, h2, h3, if_false, if_true, ne_eq,
              not_true_eq_false, not_false_eq_true]⟩))))
      · exact .inr (.inr (.inr (.inl ⟨len, s', rfl, h1, not_le.1 h2, by
          simp only [pollReadLen, hread, h4, h1, h2, if_false, if_true, ne_eq, not_true_eq_false,
            not_false_eq_true]⟩)))
    · exact .inr (.inr (.inl ⟨len, s', rfl, hpos, lt_of_le_of_ne hle h1, by
        simp only [pollReadLen, hread, h0, h1, if_false, if_true, ne_eq, not_false_eq_true]⟩))

theorem pollReadBody_weight {m : Message} {r r' : Receiver Q} (hm : r.readmessage = some m)
    (h : pollReadBody pushBack m r = (none, r')) : r'.weight < r.weight := by
  rcases pollReadBody_cases pushBack m r with ⟨-, he⟩ | ⟨-, -, he⟩ | ⟨q, hfull, -, he⟩ |
    ⟨s', -, -, he⟩ | ⟨s', -, -, he⟩ | ⟨bytes, s', hlt, hread, hpos, -, he⟩ <;> rw [he] at h <;>
    cases h
  · simp [Receiver.weight, hm, hfull]
  · have hscript := readBytes_weight_lt hread hpos.ne'
    have hbound := Receiver.weight_le ({ r with
      readmessage := some (m.receive bytes), script := s' } : Receiver Q)
    have hr : r.weight = 2 * scriptWeight r.script := by simp [Receiver.weight, hm, hlt.ne]
    simp only at hbound
    omega

theorem pollReadTurn_weight {r r' : Receiver Q}
    (h : pollReadTurn pushBack maxPackageSize fd r = (none, r')) : r'.weight < r.weight := by
  unfold pollReadTurn at h
  split at h
  · rename_i m hm
    exact pollReadBody_weight hm h
  · split at h
    · cases h
    · rename_i m script' hlen
      have hlt : scriptWeight script' < scriptWeight r.script := by
        rcases pollReadLen_cases maxPackageSize fd r.script with ⟨_, _, he⟩ | ⟨_, _, he⟩ |
          ⟨_, _, _, _, _, he⟩ | ⟨_, _, _, _, _, he⟩ | ⟨_, _, _, _, _, he⟩ |
          ⟨len, s', hread, hlen4, _, _, he⟩ <;> rw [he] at hlen <;> cases hlen
        exact readBytes_weight_lt hread (by rw [hlen4]; decide)
      have hbody := pollReadBody_weight rfl h
      have hbound := Receiver.weight_le ({ r with
        readmessage := some m, script := script' } : Receiver Q)
      simp only at hbound
      have hr : 2 * scriptWeight r.script ≤ r.weight := Nat.le_add_right _ _
      omega

variable (pushBack maxPackageSize fd)

/-- `slam_socket_poll_read`. -/
def pollRead (r : Receiver Q) : PollReadEnd × Receiver Q :=
  match _h : pollReadTurn pushBack maxPackageSize fd r with
  | (some e, r') => (e, r')
  | (none, r') => pollRead r'
termination_by r.weight
decreasing_by exact pollReadTurn_weight _h

/-- Up to `n` calls of `slam_socket_poll_read` on one connection: the io thread closes the
connection after the first that returns false. -/
def pollReads : ℕ → Receiver Q → List PollReadEnd × Receiver Q
  | 0, r => ([], r)
  | n + 1, r =>
    match pollRead pushBack maxPackageSize fd r with
    | (e, r') => if e.rc then (e :: (pollReads n r').1, (pollReads n r').2) else ([e], r')

end PollRead

end Slam
