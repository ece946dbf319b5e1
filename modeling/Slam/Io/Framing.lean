import Slam.Lib.Fifo
import Slam.Io.Receive

/-!
# Framing conserves the stream

The invariant of the receiving side: the bytes taken off the stream are, in order, the buffers of
the messages already pushed and the received part of the message under construction; and every
message carries the length it was allocated for in its own first four bytes. One turn of the loop
keeps it (`Sound.turn`), hence so does a call that returns true, hence any number of such calls
(`pollReads_conserve`).
-/

namespace Slam

/-- A message allocated for the length in its header, with the header received. -/
structure Message.Sized (maxPackageSize : ℕ) (fd : ℤ) (m : Message) : Prop where
  fd_eq : m.fd = fd
  type_eq : m.type = .protobufPackage
  buf_length : m.buf.length = m.bufsize
  len_le : msglenSize ≤ m.bytesize
  bytesize_le : m.bytesize ≤ m.bufsize
  len_eq : leValue (m.buf.take msglenSize) = m.bufsize
  min_le : packageMinSize ≤ m.bufsize
  lt_max : m.bufsize < maxPackageSize

section Sized

variable {maxPackageSize : ℕ} {fd : ℤ} {m : Message} {bytes : List Byte}

/-- Receiving more of a message leaves its header alone. -/
theorem Message.Sized.receive (h : m.Sized maxPackageSize fd)
    (hfit : m.bytesize + bytes.length ≤ m.bufsize) :
    (m.receive bytes).Sized maxPackageSize fd := by
  have hbuf := h.buf_length
  refine ⟨h.fd_eq, h.type_eq, ?_, h.len_le.trans (Nat.le_add_right _ _), hfit, ?_, h.min_le,
    h.lt_max⟩
  · exact (length_memcpyAt (by omega)).trans hbuf
  · have hlen := h.len_le
    show leValue ((memcpyAt m.buf m.bytesize bytes).take msglenSize) = m.bufsize
    rw [memcpyAt, List.append_assoc, List.take_append_of_le_length (by simp; omega),
      List.take_take, min_eq_left hlen, h.len_eq]

theorem Message.receive_received (bytes : List Byte) (h : m.bytesize ≤ m.buf.length) :
    (m.receive bytes).buf.take (m.receive bytes).bytesize = m.buf.take m.bytesize ++ bytes :=
  take_memcpyAt h

/-- The message allocated for an acceptable length, with that length stored in it. -/
theorem Message.Sized.new (fd : ℤ) (hlen : bytes.length = msglenSize)
    (hmin : packageMinSize ≤ leValue bytes) (hmax : leValue bytes < maxPackageSize) :
    ((Message.new fd .protobufPackage (leValue bytes)).receive bytes).Sized maxPackageSize fd := by
  have h4 : msglenSize ≤ leValue bytes := le_trans (by decide) hmin
  refine ⟨rfl, rfl, ?_, ?_, ?_, ?_, hmin, hmax⟩
  · show (memcpyAt (List.replicate (leValue bytes) 0) 0 bytes).length = leValue bytes
    rw [length_memcpyAt (by simp only [List.length_replicate]; omega), List.length_replicate]
  · simp [Message.receive, Message.new, hlen]
  · simp only [Message.receive, Message.new]; omega
  · show leValue ((memcpyAt _ 0 bytes).take msglenSize) = _
    simp only [memcpyAt, List.take_zero, List.nil_append]
    rw [← hlen, List.take_left]
    rfl

end Sized

/-- The receiver has turned the consumed part of `stream` into messages, losing nothing. -/
structure Receiver.Sound {Q : Type*} (maxPackageSize : ℕ) (fd : ℤ) (stream : List Byte)
    (r : Receiver Q) : Prop where
  conserved : stream = r.pushed.flatMap Message.buf ++ r.pending ++ streamBytes r.script
  complete : ∀ m ∈ r.pushed, m.Sized maxPackageSize fd ∧ m.bytesize = m.bufsize
  underway : ∀ m, r.readmessage = some m → m.Sized maxPackageSize fd

section Sound

variable {Q : Type*} {pushBack : Q → Message → Option Q} {maxPackageSize : ℕ} {fd : ℤ}
  {stream : List Byte} {r r' : Receiver Q}

theorem Receiver.Sound.new (maxPackageSize : ℕ) (fd : ℤ) (q : Q) (script : List RecvAnswer) :
    (Receiver.new q script).Sound maxPackageSize fd (streamBytes script) :=
  ⟨by simp [Receiver.new, Receiver.pending], by simp [Receiver.new], by simp [Receiver.new]⟩

/-- Reading nothing changes nothing. -/
theorem Receiver.Sound.idle (h : r.Sound maxPackageSize fd stream) {n : ℕ} {s' : List RecvAnswer}
    (hread : readBytes n r.script [] = (some [], s')) :
    ({ r with script := s' } : Receiver Q).Sound maxPackageSize fd stream := by
  obtain ⟨got, hgot, hstream, -⟩ := readBytes_spec hread (Nat.zero_le _)
  obtain rfl : got = [] := by simpa using hgot
  refine ⟨?_, h.complete, h.underway⟩
  rw [h.conserved, hstream]
  rfl

/-- The second stage keeps the invariant unless it ends in an error, and never aborts. -/
theorem Receiver.Sound.body (h : r.Sound maxPackageSize fd stream) {m : Message}
    (hm : r.readmessage = some m) {e : Option PollReadEnd}
    (hbody : pollReadBody pushBack m r = (e, r')) :
    e ≠ some .aborted ∧ (e = none ∨ e = some .wouldblock → r'.Sound maxPackageSize fd stream) := by
  have hs := h.underway m hm
  have hpending : r.pending = m.buf.take m.bytesize := by simp [Receiver.pending, hm]
  rcases pollReadBody_cases pushBack m r with ⟨hassert, he⟩ | ⟨-, -, he⟩ | ⟨q, hfull, -, he⟩ |
    ⟨s', -, -, he⟩ | ⟨s', -, hread, he⟩ | ⟨bytes, s', -, hread, -, hfit, he⟩ <;>
    rw [he] at hbody <;> cases hbody
  · exact absurd hs.bytesize_le hassert
  · exact ⟨nofun, by simp⟩
  · refine ⟨nofun, fun _ => ⟨?_, ?_, nofun⟩⟩
    · have hall : m.buf.take m.bytesize = m.buf :=
        List.take_of_length_le (by rw [hs.buf_length, hfull])
      rw [h.conserved, hpending, hall]
      simp [Receiver.pending]
    · intro m' hm'
      rcases List.mem_append.1 hm' with hold | hnew
      · exact h.complete m' hold
      · rw [List.mem_singleton.1 hnew]; exact ⟨hs, hfull⟩
  · exact ⟨nofun, by simp⟩
  · exact ⟨nofun, fun _ => h.idle hread⟩
  · obtain ⟨got, hgot, hstream, -⟩ := readBytes_spec hread (Nat.zero_le _)
    obtain rfl : bytes = got := by simpa using hgot
    refine ⟨nofun, fun _ => ⟨?_, h.complete, ?_⟩⟩
    · have hreceived := m.receive_received bytes (by
        rw [hs.buf_length]; exact hs.bytesize_le)
      rw [h.conserved, hpending, hstream]
      simp only [Receiver.pending, hreceived, List.append_assoc]
    · intro m' hm'
      cases hm'
      exact hs.receive hfit

/-- The first stage keeps the invariant when it allocates a message. -/
theorem Receiver.Sound.len (h : r.Sound maxPackageSize fd stream) (hnone : r.readmessage = none)
    {len : List Byte} {s' : List RecvAnswer} (hread : readBytes msglenSize r.script [] = (some len, s'))
    (hlen : len.length = msglenSize) (hmin : packageMinSize ≤ leValue len)
    (hmax : leValue len < maxPackageSize) :
    ({ r with
      readmessage := some ((Message.new fd .protobufPackage (leValue len)).receive len)
      script := s' } : Receiver Q).Sound maxPackageSize fd stream := by
  obtain ⟨got, hgot, hstream, -⟩ := readBytes_spec hread (Nat.zero_le _)
  obtain rfl : len = got := by simpa using hgot
  have hpending : r.pending = [] := by simp [Receiver.pending, hnone]
  refine ⟨?_, h.complete, ?_⟩
  · have hreceived := (Message.new fd .protobufPackage (leValue len)).receive_received len
      (Nat.zero_le _)
    rw [h.conserved, hpending, hstream]
    simp only [Receiver.pending, hreceived]
    simp [Message.new]
  · rintro m ⟨⟩
    exact Message.Sized.new fd hlen hmin hmax

/-- One turn of the loop keeps the invariant unless it ends in an error, and never aborts. -/
theorem Receiver.Sound.turn (h : r.Sound maxPackageSize fd stream) {e : Option PollReadEnd}
    (hturn : pollReadTurn pushBack maxPackageSize fd r = (e, r')) :
    e ≠ some .aborted ∧ (e = none ∨ e = some .wouldblock → r'.Sound maxPackageSize fd stream) := by
  unfold pollReadTurn at hturn
  split at hturn
  · rename_i m hm
    exact h.body hm hturn
  · rename_i hnone
    rcases pollReadLen_cases maxPackageSize fd r.script with ⟨s', hread, he⟩ | ⟨s', hread, he⟩ |
      ⟨len, s', hread, _, _, he⟩ | ⟨len, s', hread, _, _, he⟩ | ⟨len, s', hread, _, _, he⟩ |
      ⟨len, s', hread, hlen, hmin, hmax, he⟩ <;> rw [he] at hturn <;> simp only at hturn
    · cases hturn; exact ⟨nofun, by simp⟩
    · cases hturn; exact ⟨nofun, fun _ => h.idle hread⟩
    · cases hturn; exact ⟨nofun, by simp⟩
    · cases hturn; exact ⟨nofun, by simp⟩
    · cases hturn; exact ⟨nofun, by simp⟩
    · exact (h.len hnone hread hlen hmin hmax).body rfl hturn

/-- A call keeps the invariant unless it returns false, and never aborts. -/
theorem Receiver.Sound.pollRead (h : r.Sound maxPackageSize fd stream) {e : PollReadEnd}
    (hcall : pollRead pushBack maxPackageSize fd r = (e, r')) :
    e ≠ .aborted ∧ (e.rc = true → r'.Sound maxPackageSize fd stream) := by
  fun_induction Slam.pollRead pushBack maxPackageSize fd r with
  | case1 r e₁ r₁ hturn =>
    cases hcall
    obtain ⟨habort, hsound⟩ := h.turn hturn
    refine ⟨fun he => habort (by rw [he]), fun hrc => hsound (.inr ?_)⟩
    simpa [PollReadEnd.rc] using hrc
  | case2 r r₁ hturn ih => exact ih ((h.turn hturn).2 (.inl rfl)) hcall

/-- Any number of calls. -/
theorem Receiver.Sound.pollReads (pushBack : Q → Message → Option Q)
    (h : r.Sound maxPackageSize fd stream) (n : ℕ) :
    .aborted ∉ (Slam.pollReads pushBack maxPackageSize fd n r).1 ∧
      ((∀ e ∈ (Slam.pollReads pushBack maxPackageSize fd n r).1, e.rc = true) →
        (Slam.pollReads pushBack maxPackageSize fd n r).2.Sound maxPackageSize fd stream) := by
  induction n generalizing r with
  | zero => exact ⟨nofun, fun _ => h⟩
  | succ n ih =>
    rcases hcall : Slam.pollRead pushBack maxPackageSize fd r with ⟨e, r₁⟩
    obtain ⟨habort, hsound⟩ := h.pollRead hcall
    by_cases hrc : e.rc = true
    · obtain ⟨ih₁, ih₂⟩ := ih (hsound hrc)
      simp only [Slam.pollReads, hcall, hrc, if_true, List.mem_cons, not_or, forall_eq_or_imp,
        true_and]
      exact ⟨⟨habort.symm, ih₁⟩, ih₂⟩
    · simp only [Slam.pollReads, hcall, hrc]
      exact ⟨by simpa using habort.symm, fun hall => absurd (hall e (by simp)) hrc⟩

end Sound

/-- **Receiving loses, duplicates and reorders nothing.** Whatever `recv` answers and whatever the
queue does, no call fails an assertion; and as long as every call returned true, the stream is the
buffers of the pushed messages, then the received part of the pending one, then what `recv` has
not delivered, and every pushed message has the length its header says. -/
theorem pollReads_conserve {Q : Type*} (pushBack : Q → Message → Option Q) (maxPackageSize : ℕ)
    (fd : ℤ) (readmq : Q) (script : List RecvAnswer) (n : ℕ) :
    let run := pollReads pushBack maxPackageSize fd n (.new readmq script)
    .aborted ∉ run.1 ∧
      ((∀ e ∈ run.1, e.rc = true) →
        streamBytes script =
          (run.2.pushed.flatMap Message.buf ++ run.2.pending) ++ streamBytes run.2.script ∧
        ∀ m ∈ run.2.pushed, m.bytesize = m.bufsize ∧ m.buf.length = m.bufsize ∧
          m.bufsize = leValue (m.buf.take msglenSize) ∧
          rawmessageSize ≤ m.bufsize ∧ m.bufsize < maxPackageSize) := by
  intro run
  obtain ⟨habort, hsound⟩ :=
    (Receiver.Sound.new maxPackageSize fd readmq script).pollReads pushBack n
  refine ⟨habort, fun hall => ?_⟩
  have hs := hsound hall
  refine ⟨hs.conserved, fun m hm => ?_⟩
  obtain ⟨hsized, hfull⟩ := hs.complete m hm
  exact ⟨hfull, hsized.buf_length, hsized.len_eq.symm, hsized.min_le, hsized.lt_max⟩

/-- A frame of twenty bytes in three pieces, the first of them inside the header, and half of the
next frame. -/
theorem pollReads_conserve_pieces :
    let script : List RecvAnswer := [.data 20 [0], .eintr, .data 0 [0, 1, 2], .eagain, .eagain,
      .data 3 (List.replicate 13 4), .data 18 [0, 0, 0, 9], .eagain]
    let run := pollReads BoundedFifo.push 100 5 3 (.new (.empty Message 4) script)
    (∀ e ∈ run.1, e.rc = true) ∧ run.2.pushed.length = 1 ∧
      streamBytes script =
        (run.2.pushed.flatMap Message.buf ++ run.2.pending) ++ streamBytes run.2.script := by
  have hrc : ∀ e ∈ (pollReads BoundedFifo.push 100 5 3 (.new (.empty Message 4)
      [.data 20 [0], .eintr, .data 0 [0, 1, 2], .eagain, .eagain,
        .data 3 (List.replicate 13 4), .data 18 [0, 0, 0, 9], .eagain])).1, e.rc = true := by
    decide +kernel
  exact ⟨hrc, by decide +kernel, ((pollReads_conserve _ _ _ _ _ _).2 hrc).1⟩

end Slam
