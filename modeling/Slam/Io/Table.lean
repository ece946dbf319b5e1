import Slam.Io.Polling

/-!
# What the steps of the io thread do to the table of sockets

Seen from the poll set, a descriptor is in the table or not (`Known`), and it has something to send or not (`Unsent`).
Each operation of the io thread keeps this (`Keeps`), adds a socket that has nothing to send (`Adds`), removes one, or
answers with true to a message that it puts into a send queue. A loop ends when the kernel would block, or nothing is left
to send, or the socket is to be removed.
-/

namespace Slam

namespace IoThread

variable {cap sendCap maxPackageSize : ℕ} {io io' : IoThread cap sendCap} {fd fd' : ℤ}

/-- There is a socket under the descriptor. -/
def Known (io : IoThread cap sendCap) (fd : ℤ) : Prop := io.sockets fd ≠ none

/-- The socket under the descriptor has something to send. -/
def Unsent (io : IoThread cap sendCap) (fd : ℤ) : Prop := ∃ s, io.sockets fd = some s ∧ s.sender.sendmq.items ≠ []

theorem Unsent.known (h : io.Unsent fd) : io.Known fd := by
  obtain ⟨s, hs, -⟩ := h
  simp [Known, hs]

/-- A socket is replaced by one that has no more to send. -/
theorem known_update {s s' : Socket sendCap} (hs : io.sockets fd = some s)
    (h : io'.sockets = Function.update io.sockets fd (some s')) : io'.Known fd' ↔ io.Known fd' := by
  rw [Known, Known, h]
  by_cases heq : fd' = fd
  · subst heq
    rw [Function.update_self, hs]
    simp
  · rw [Function.update_of_ne heq]

theorem unsent_update {s s' : Socket sendCap} (hs : io.sockets fd = some s)
    (h : io'.sockets = Function.update io.sockets fd (some s')) (hitems : s'.sender.sendmq.items ≠ [] → s.sender.sendmq.items ≠ [])
    (hunsent : io'.Unsent fd') : io.Unsent fd' := by
  obtain ⟨t, ht, hne⟩ := hunsent
  rw [h] at ht
  by_cases heq : fd' = fd
  · subst heq
    rw [Function.update_self, Option.some_inj] at ht
    subst ht
    exact ⟨s, hs, hitems hne⟩
  · rw [Function.update_of_ne heq] at ht
    exact ⟨t, ht, hne⟩

/-- A socket that is removed. -/
theorem removeSocket_table (h : io.removeSocket fd = some io') (fd' : ℤ) :
    io'.control = io.control ∧ (io'.Known fd' ↔ io.Known fd' ∧ fd' ≠ fd) ∧ (io'.Unsent fd' → io.Unsent fd' ∧ fd' ≠ fd) := by
  unfold removeSocket at h
  split_ifs at h
  cases hs : io.sockets fd with
  | none =>
    rw [hs] at h
    obtain rfl := Option.some.inj h
    have hne (hknown : io.Known fd') : fd' ≠ fd := by
      rintro rfl
      exact hknown hs
    exact ⟨rfl, ⟨fun hknown => ⟨hknown, hne hknown⟩, And.left⟩, fun hunsent => ⟨hunsent, hne hunsent.known⟩⟩
  | some s =>
    rw [hs] at h
    obtain ⟨hsockets, hcontrol⟩ : io'.sockets = Function.update io.sockets fd none ∧ io'.control = io.control := by
      obtain rfl := Option.some.inj h
      rcases pushEvent_cases { io with sockets := Function.update io.sockets fd none } .lostConnection s.conn fd with
        ⟨-, he⟩ | ⟨q, -, he⟩
      · rw [lostConnectionEvent, he]
        exact ⟨rfl, rfl⟩
      · rw [lostConnectionEvent, he]
        exact ⟨rfl, rfl⟩
    refine ⟨hcontrol, ?_, ?_⟩
    · rw [Known, Known, hsockets]
      by_cases heq : fd' = fd
      · simp [heq]
      · rw [Function.update_of_ne heq]
        simp [heq]
    · rintro ⟨t, ht, hne⟩
      rw [hsockets] at ht
      by_cases heq : fd' = fd
      · rw [heq, Function.update_self] at ht
        cases ht
      · rw [Function.update_of_ne heq] at ht
        exact ⟨⟨t, ht, hne⟩, heq⟩

/-- No socket comes or goes, and nothing is put into a send queue. -/
structure Keeps (io io' : IoThread cap sendCap) : Prop where
  known : ∀ fd, io'.Known fd ↔ io.Known fd
  unsent : ∀ fd, io'.Unsent fd → io.Unsent fd

theorem keeps_of_sockets (h : io'.sockets = io.sockets) : io.Keeps io' where
  known fd := by rw [Known, Known, h]
  unsent fd := by
    rw [Unsent, Unsent, h]
    exact id

theorem keeps_update {s s' : Socket sendCap} (hs : io.sockets fd = some s)
    (h : io'.sockets = Function.update io.sockets fd (some s')) (hitems : s'.sender.sendmq.items ≠ [] → s.sender.sendmq.items ≠ []) :
    io.Keeps io' where
  known _ := known_update hs h
  unsent _ := unsent_update hs h hitems

/-- A socket is found for the event, and its loop begins. -/
theorem readSocket_table (h : (io.readSocket fd).aborted = false) : io.Keeps (io.readSocket fd) ∧
    ((¬ io.Known fd ∧ (io.readSocket fd).control = io.control) ∨
      (io.Known fd ∧ awaited (io.readSocket fd).control = some (fd, .pollin))) := by
  unfold readSocket at h ⊢
  by_cases hvalid : ValidSocket fd
  · rw [if_neg (not_not.2 hvalid)]
    cases hs : io.sockets fd with
    | none => exact ⟨keeps_of_sockets rfl, .inl ⟨not_not.2 hs, rfl⟩⟩
    | some s =>
      have hknown : io.Known fd := by simp [Known, hs]
      dsimp only
      split_ifs
      · exact ⟨keeps_of_sockets rfl, .inr ⟨hknown, rfl⟩⟩
      · exact ⟨keeps_of_sockets rfl, .inr ⟨hknown, rfl⟩⟩
  · rw [if_pos hvalid] at h
    cases h

theorem writeSocket_table (h : (io.writeSocket fd).aborted = false) : io.Keeps (io.writeSocket fd) ∧
    ((¬ io.Known fd ∧ (io.writeSocket fd).control = io.control) ∨
      (io.Known fd ∧ awaited (io.writeSocket fd).control = some (fd, .pollout))) := by
  unfold writeSocket at h ⊢
  by_cases hvalid : ValidSocket fd
  · rw [if_neg (not_not.2 hvalid)] at h ⊢
    cases hs : io.sockets fd with
    | none => exact ⟨keeps_of_sockets rfl, .inl ⟨not_not.2 hs, rfl⟩⟩
    | some s =>
      have hknown : io.Known fd := by simp [Known, hs]
      rw [hs] at h
      dsimp only at h ⊢
      split_ifs at h ⊢
      · cases h
      · exact ⟨keeps_of_sockets rfl, .inr ⟨hknown, rfl⟩⟩
  · rw [if_pos hvalid] at h
    cases h

/-- The read loop goes on, ends because `recv` would block, or removes the socket. -/
theorem readTurn_table {s : Socket sendCap} (hs : io.sockets fd = some s) : io.Keeps (io.readTurn maxPackageSize fd s) ∧
    ((io.readTurn maxPackageSize fd s).control = .reading fd ∨ (io.readTurn maxPackageSize fd s).control = .removing fd ∨
      (io.readTurn maxPackageSize fd s).control = .idle ∧
        (pollReadTurn (pushTagged s.conn) maxPackageSize fd ⟨s.readmessage, io.mq, s.recvScript, []⟩).1 = some .wouldblock) := by
  refine ⟨keeps_update hs rfl id, ?_⟩
  unfold readTurn
  rcases pollReadTurn (pushTagged s.conn) maxPackageSize fd ⟨s.readmessage, io.mq, s.recvScript, []⟩ with ⟨e, r⟩
  cases e with
  | none => exact .inl rfl
  | some e => cases e <;> simp [PollReadEnd.rc]

/-- The loop is done with the queue only if nothing is in it. -/
theorem pollWriteTurn_drained {s : Sender sendCap} (h : s.pollWriteTurn.1 = some .drained) : s.sendmq.items = [] := by
  cases hitems : s.sendmq.items with
  | nil => rfl
  | cons m l =>
    rw [Sender.pollWriteTurn, hitems] at h
    dsimp only at h
    by_cases hroom : m.bytesize < m.bufsize
    · rw [if_neg (not_not.2 hroom)] at h
      cases hsend : send (m.bufsize - m.bytesize) s.script with
      | mk r script' =>
        rw [hsend] at h
        cases r with
        | sent len =>
          dsimp only at h
          unfold Sender.advance at h
          dsimp only at h
          split_ifs at h
          · cases hpop : s.sendmq.pop <;> simp [hpop] at h
          · cases h
        | _ => cases h
    · rw [if_pos hroom] at h
      cases h

theorem writeTurn_control (io : IoThread cap sendCap) (fd : ℤ) (s : Socket sendCap) : (io.writeTurn fd s).control =
    s.sender.pollWriteTurn.1.elim (.writing fd) fun e => if e.rc then .idle else .removing fd := by
  unfold writeTurn
  rcases s.sender.pollWriteTurn with ⟨e, sender'⟩
  cases e <;> rfl

/-- The write loop goes on, ends because `send` would block or nothing is left, or removes the socket. -/
theorem writeTurn_table {s : Socket sendCap} (hs : io.sockets fd = some s) : io.Keeps (io.writeTurn fd s) ∧
    ((io.writeTurn fd s).control = .writing fd ∨ (io.writeTurn fd s).control = .removing fd ∨
      (io.writeTurn fd s).control = .idle ∧ (¬ (io.writeTurn fd s).Unsent fd ∨ s.sender.pollWriteTurn.1 = some .wouldblock)) := by
  have hitems : s.sender.pollWriteTurn.2.sendmq.items ≠ [] → s.sender.sendmq.items ≠ [] := by
    intro hne hnil
    refine hne ?_
    rw [Sender.pollWriteTurn, hnil]
    exact hnil
  refine ⟨keeps_update hs rfl hitems, ?_⟩
  rw [writeTurn_control]
  cases hturn : s.sender.pollWriteTurn.1 with
  | none => exact .inl rfl
  | some e =>
    cases e with
    | drained =>
      refine .inr (.inr ⟨rfl, .inl ?_⟩)
      rintro ⟨t, ht, hne⟩
      have hself : (io.writeTurn fd s).sockets fd = some { s with sender := s.sender.pollWriteTurn.2 } := Function.update_self ..
      rw [hself, Option.some_inj] at ht
      subst ht
      exact hitems hne (pollWriteTurn_drained hturn)
    | wouldblock => exact .inr (.inr ⟨rfl, .inr rfl⟩)
    | _ => exact .inr (.inl rfl)

/-- A socket that is new in the table. -/
structure Adds (io io' : IoThread cap sendCap) (fd : ℤ) : Prop where
  fresh : ¬ io.Known fd
  known : ∀ fd', io'.Known fd' ↔ fd' = fd ∨ io.Known fd'
  unsent : ∀ fd', io'.Unsent fd' → io.Unsent fd'

theorem adds_update {s : Socket sendCap} (hfree : io.sockets fd = none) (hs : s.sender.sendmq.items = [])
    (h : io'.sockets = Function.update io.sockets fd (some s)) : io.Adds io' fd where
  fresh := not_not.2 hfree
  known fd' := by
    rw [Known, Known, h]
    by_cases heq : fd' = fd
    · simp [heq]
    · rw [Function.update_of_ne heq]
      simp [heq]
  unsent fd' := by
    rintro ⟨t, ht, hne⟩
    rw [h] at ht
    by_cases heq : fd' = fd
    · rw [heq, Function.update_self, Option.some_inj] at ht
      exact absurd (ht ▸ hs) hne
    · rw [Function.update_of_ne heq] at ht
      exact ⟨t, ht, hne⟩

/-- What is registered comes into the table, unless an assertion fails. -/
theorem addSocket_registered (io : IoThread cap sendCap) (fd : ℤ) (type : SocketType) (recvs : List RecvAnswer)
    (sends : List SendAnswer) : io.addSocket fd type recvs sends true ≠ some (false, io) := by
  by_cases hvalid : ValidSocket fd
  · by_cases hfree : io.sockets fd = none
    · simp [addSocket_of_free hvalid hfree]
    · simp [addSocket, hfree]
  · simp [addSocket, hvalid]

theorem newSocket_mq (type : SocketType) (recvs : List RecvAnswer) (sends : List SendAnswer) (pollAdd : Bool) :
    (io.newSocket fd type recvs sends pollAdd).mq = io.mq := by
  unfold newSocket
  rcases addSocket_cases io fd type recvs sends pollAdd with he | he | ⟨-, -, -, he⟩
  · rw [he]
    rfl
  · rw [he]
  · rw [he]

theorem newSocket_table {type : SocketType} {recvs : List RecvAnswer} {sends : List SendAnswer}
    (h : (io.newSocket fd type recvs sends true).aborted = false) :
    (io.newSocket fd type recvs sends true).control = io.control ∧ io.Adds (io.newSocket fd type recvs sends true) fd := by
  unfold newSocket at h ⊢
  rcases addSocket_cases io fd type recvs sends true with he | he | ⟨-, hfree, -, he⟩
  · rw [he] at h
    cases h
  · exact absurd he (addSocket_registered io fd type recvs sends)
  · rw [he]
    exact ⟨rfl, adds_update hfree rfl rfl⟩

theorem acceptSocket_table {recvs : List RecvAnswer} {sends : List SendAnswer} {pollAdd : Bool}
    (h : (io.acceptSocket fd recvs sends pollAdd).aborted = false) :
    (io.acceptSocket fd recvs sends pollAdd).control = io.control ∧
      ((pollAdd = false ∧ io.Keeps (io.acceptSocket fd recvs sends pollAdd)) ∨
        (pollAdd = true ∧ io.Adds (io.acceptSocket fd recvs sends pollAdd) fd)) := by
  cases pollAdd with
  | false =>
    unfold acceptSocket at h ⊢
    rcases addSocket_cases io fd .connection recvs sends false with he | he | ⟨-, -, hadd, -⟩
    · rw [he] at h
      cases h
    · rw [he]
      exact ⟨rfl, .inl ⟨rfl, keeps_of_sockets rfl⟩⟩
    · cases hadd
  | true =>
    by_cases hadd : ValidSocket fd ∧ io.sockets fd = none
    · obtain ⟨hvalid, hfree⟩ := hadd
      rw [acceptSocket_of_free hvalid hfree]
      rcases pushEvent_cases { io with
          sockets := Function.update io.sockets fd (some (Socket.new io.history.length .connection recvs sends))
          history := io.history ++ [(fd, .connection)] } .establishConnection io.history.length fd with ⟨-, he⟩ | ⟨q, -, he⟩
      · rw [he]
        exact ⟨rfl, .inr ⟨rfl, adds_update hfree rfl rfl⟩⟩
      · rw [he]
        exact ⟨rfl, .inr ⟨rfl, adds_update hfree rfl rfl⟩⟩
    · unfold acceptSocket at h
      rcases addSocket_cases io fd .connection recvs sends true with he | he | ⟨hvalid, hfree, -, -⟩
      · rw [he] at h
        cases h
      · exact absurd he (addSocket_registered io fd .connection recvs sends)
      · exact absurd ⟨hvalid, hfree⟩ hadd

/-- Every message that is put into a send queue is answered with true. -/
theorem respond_table {m : Message} (h : io'.sockets = (ioResponse Socket.writeMessage io.sockets m true).2) :
    (∀ fd, io'.Known fd ↔ io.Known fd) ∧
      ∀ fd, io'.Unsent fd → io.Unsent fd ∨ fd = m.fd ∧ (ioResponse Socket.writeMessage io.sockets m true).1 = true := by
  have hkeeps (hsame : io'.sockets = io.sockets) : (∀ fd, io'.Known fd ↔ io.Known fd) ∧
      ∀ fd, io'.Unsent fd → io.Unsent fd ∨ fd = m.fd ∧ (ioResponse Socket.writeMessage io.sockets m true).1 = true :=
    ⟨(keeps_of_sockets hsame).known, fun fd hunsent => .inl ((keeps_of_sockets hsame).unsent fd hunsent)⟩
  by_cases hvalid : ValidSocket m.fd
  · cases hs : io.sockets m.fd with
    | none =>
      refine hkeeps ?_
      rw [h, ioResponse, if_neg (not_not.2 hvalid), hs]
    | some s =>
      cases hw : s.writeMessage { m with bytesize := 0 } with
      | mk ok s' =>
        cases ok with
        | false =>
          refine hkeeps ?_
          rw [h, ioResponse, if_neg (not_not.2 hvalid), hs]
          dsimp only
          rw [hw]
        | true =>
          have hresponse : ioResponse Socket.writeMessage io.sockets m true = (true, Function.update io.sockets m.fd (some s')) := by
            rw [ioResponse, if_neg (not_not.2 hvalid), hs]
            dsimp only
            rw [hw]
          have hsockets : io'.sockets = Function.update io.sockets m.fd (some s') := by rw [h, hresponse]
          refine ⟨fun fd => known_update hs hsockets, fun fd hunsent => ?_⟩
          by_cases heq : fd = m.fd
          · exact .inr ⟨heq, by rw [hresponse]⟩
          · obtain ⟨t, ht, hne⟩ := hunsent
            rw [hsockets, Function.update_of_ne heq] at ht
            exact .inl ⟨t, ht, hne⟩
  · refine hkeeps ?_
    rw [h, ioResponse, if_pos hvalid]

/-! ### The steps one by one -/

section Step

variable (haborted : io.aborted = false)
include haborted

theorem step_pollError (hidle : io.control = .idle) (h : io.step maxPackageSize (.pollError fd) = some io')
    (halive : io'.aborted = false) : io.removeSocket fd = some io' := by
  rw [step, haborted, if_neg Bool.false_ne_true, if_pos hidle] at h
  cases hremove : io.removeSocket fd with
  | none =>
    rw [hremove] at h
    obtain rfl := Option.some.inj h
    cases halive
  | some io₁ =>
    rw [hremove] at h
    exact h

theorem step_pollIn (hidle : io.control = .idle) (h : io.step maxPackageSize (.pollIn fd) = some io') : io' = io.readSocket fd := by
  rw [step, haborted, if_neg Bool.false_ne_true, if_pos hidle] at h
  exact (Option.some.inj h).symm

theorem step_pollOut (hidle : io.control = .idle) (h : io.step maxPackageSize (.pollOut fd) = some io') :
    io' = io.writeSocket fd := by
  rw [step, haborted, if_neg Bool.false_ne_true, if_pos hidle] at h
  exact (Option.some.inj h).symm

theorem step_turn (h : io.step maxPackageSize .turn = some io') : io.ioTurn maxPackageSize = some io' := by
  rwa [step, haborted, if_neg Bool.false_ne_true] at h

theorem step_accept {recvs : List RecvAnswer} {sends : List SendAnswer} {pollAdd : Bool}
    (h : io.step maxPackageSize (.accept fd pollAdd recvs sends) = some io') :
    (∃ fd', io.control = .accepting fd') ∧ io' = io.acceptSocket fd recvs sends pollAdd := by
  rw [step, haborted, if_neg Bool.false_ne_true] at h
  split at h
  · next fd' hcontrol => exact ⟨⟨fd', hcontrol⟩, (Option.some.inj h).symm⟩
  · cases h

theorem step_acceptDone (h : io.step maxPackageSize .acceptDone = some io') :
    (∃ fd', io.control = .accepting fd') ∧ io'.sockets = io.sockets ∧ io'.control = .idle ∧ io'.mq = io.mq := by
  rw [step, haborted, if_neg Bool.false_ne_true] at h
  split at h
  · next fd' hcontrol =>
    obtain rfl := Option.some.inj h
    exact ⟨⟨fd', hcontrol⟩, rfl, rfl, rfl⟩
  · cases h

theorem step_pop (h : io.step maxPackageSize .pop = some io') : io'.sockets = io.sockets ∧ io'.control = io.control := by
  rw [step, haborted, if_neg Bool.false_ne_true, popMessage.eq_def] at h
  split at h
  · obtain rfl := Option.some.inj h
    exact ⟨rfl, rfl⟩
  · cases h

theorem step_handled (h : io.step maxPackageSize .handled = some io') :
    io'.sockets = io.sockets ∧ io'.control = io.control ∧ io'.mq = io.mq := by
  rw [step, haborted, if_neg Bool.false_ne_true] at h
  split_ifs at h
  obtain rfl := Option.some.inj h
  exact ⟨rfl, rfl, rfl⟩

theorem step_respond {msgid : ℤ} {payload : List Byte} {pollout : Bool}
    (h : io.step maxPackageSize (.respond fd msgid payload pollout) = some io') :
    io'.sockets = (ioResponse Socket.writeMessage io.sockets (encodedMessage fd msgid payload) pollout).2 ∧
      io'.control = io.control ∧ io'.mq = io.mq := by
  rw [step, haborted, if_neg Bool.false_ne_true] at h
  obtain rfl := Option.some.inj h
  exact ⟨rfl, rfl, rfl⟩

theorem step_newSocket {e : IoEvent} (he : e = .newServer fd true ∨ ∃ recvs sends, e = .newClient fd true recvs sends)
    (h : io.step maxPackageSize e = some io') :
    ∃ type recvs sends, io' = io.newSocket fd type recvs sends true := by
  rcases he with rfl | ⟨recvs, sends, rfl⟩
  · rw [step, haborted, if_neg Bool.false_ne_true] at h
    exact ⟨_, _, _, (Option.some.inj h).symm⟩
  · rw [step, haborted, if_neg Bool.false_ne_true] at h
    exact ⟨_, _, _, (Option.some.inj h).symm⟩

end Step

end IoThread

end Slam
