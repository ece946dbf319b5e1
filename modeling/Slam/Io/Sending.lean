import Slam.Io.Delivery

/-!
# What goes out on every connection

The worker answers on descriptors, which are given to one connection after another, and the io thread
writes to many sockets in turn. Still what `send` takes on a connection is the answers that were put into
its own queue, in that order and byte by byte (`sending_run`): the descriptor plays no part in it, and
what was on the wire stays so when the socket is gone.

As with the streams that come in, this is not part of the state: `outgoing` notes what a step puts into a
send queue and what it sends, with the serial number of the connection.
-/

namespace Slam

/-- A turn of the write loop puts nothing into the queue, and what is on the wire stays there. -/
theorem Sender.pollWriteTurn_frame {cap : ℕ} (s : Sender cap) :
    s.pollWriteTurn.2.accepted = s.accepted ∧ s.wire <+: s.pollWriteTurn.2.wire := by
  unfold Sender.pollWriteTurn
  split
  · exact ⟨rfl, List.prefix_rfl⟩
  · rename_i m rest hitems
    split_ifs with hlt
    · rcases hsend : send (m.bufsize - m.bytesize) s.script with ⟨r, script'⟩
      cases r with
      | sent len =>
        dsimp only
        unfold Sender.advance
        dsimp only
        split_ifs
        · cases s.sendmq.pop <;> exact ⟨rfl, List.prefix_append _ _⟩
        · exact ⟨rfl, List.prefix_append _ _⟩
        · exact ⟨rfl, List.prefix_append _ _⟩
      | interrupted => exact ⟨rfl, List.prefix_rfl⟩
      | wouldblock => exact ⟨rfl, List.prefix_rfl⟩
      | lost => exact ⟨rfl, List.prefix_rfl⟩
      | failed => exact ⟨rfl, List.prefix_rfl⟩
    · exact ⟨rfl, List.prefix_rfl⟩

/-- An accepted message goes to the end of what was accepted, and nothing is sent. -/
theorem Sender.writeMessage_frame {cap : ℕ} {s : Sender cap} {m : Message} (h : (s.writeMessage m).1 = true) :
    (s.writeMessage m).2.accepted = s.accepted ++ [m] ∧ (s.writeMessage m).2.wire = s.wire := by
  unfold Sender.writeMessage at h ⊢
  cases hpush : s.sendmq.push m with
  | none => simp [hpush] at h
  | some q => exact ⟨rfl, rfl⟩

namespace IoThread

variable {cap sendCap maxPackageSize : ℕ}

/-- An answer that was put into a send queue: whose queue it is, the descriptor it was given, and the
package. -/
structure Answer where
  conn : ℕ
  fd : ℤ
  msgid : ℤ
  payload : List Byte

/-- What `slam_protocol_encode` makes of it. -/
def Answer.message (a : Answer) : Message := encodedMessage a.fd a.msgid a.payload

/-- What leaves the worker or the io thread. -/
inductive Outgoing
  | answer (a : Answer)
  | sent (conn : ℕ) (bytes : List Byte)

/-- What a step puts into a send queue, or sends. -/
def outgoing (io : IoThread cap sendCap) (e : IoEvent) (_io' : IoThread cap sendCap) : List Outgoing :=
  match e with
  | .respond fd msgid payload _ =>
    if ValidSocket fd then
      (io.sockets fd).elim [] fun s =>
        if (s.sender.writeMessage (encodedMessage fd msgid payload)).1 then [.answer ⟨s.conn, fd, msgid, payload⟩]
        else []
    else []
  | .turn =>
    match io.control with
    | .writing fd =>
      (io.sockets fd).elim [] fun s => [.sent s.conn (s.sender.pollWriteTurn.2.wire.drop s.sender.wire.length)]
    | _ => []
  | _ => []

/-- The answers of connection `c`, in order. -/
def answersOf (xs : List Outgoing) (c : ℕ) : List Answer :=
  xs.flatMap fun
    | .answer a => if a.conn = c then [a] else []
    | .sent _ _ => []

/-- The bytes sent on connection `c`. -/
def sentOf (xs : List Outgoing) (c : ℕ) : List Byte :=
  xs.flatMap fun
    | .answer _ => []
    | .sent conn bytes => if conn = c then bytes else []

/-- What goes out in a run. -/
def outgoings (cap sendCap maxPackageSize : ℕ) (es : List IoEvent) : List Outgoing :=
  (system cap sendCap maxPackageSize).notes outgoing (new cap sendCap) es

@[simp] theorem answersOf_append (xs ys : List Outgoing) (c : ℕ) :
    answersOf (xs ++ ys) c = answersOf xs c ++ answersOf ys c := List.flatMap_append

@[simp] theorem sentOf_append (xs ys : List Outgoing) (c : ℕ) : sentOf (xs ++ ys) c = sentOf xs c ++ sentOf ys c :=
  List.flatMap_append

@[simp] theorem answersOf_answer (a : Answer) (c : ℕ) : answersOf [.answer a] c = if a.conn = c then [a] else [] := by
  simp [answersOf]

@[simp] theorem sentOf_answer (a : Answer) (c : ℕ) : sentOf [.answer a] c = [] := by simp [sentOf]

@[simp] theorem answersOf_sent (conn : ℕ) (bytes : List Byte) (c : ℕ) : answersOf [.sent conn bytes] c = [] := by
  simp [answersOf]

@[simp] theorem sentOf_sent (conn : ℕ) (bytes : List Byte) (c : ℕ) :
    sentOf [.sent conn bytes] c = if conn = c then bytes else [] := by simp [sentOf]

/-! ### What a step does to the sending sides -/

/-- Everything a step can do to the sockets, as far as sending goes. -/
inductive Sends (io io' : IoThread cap sendCap) (out : List Outgoing) : Prop
  | kept (hhistory : io'.history = io.history) (hout : out = [])
      (hsockets : ∀ fd s', io'.sockets fd = some s' →
        ∃ s, io.sockets fd = some s ∧ s'.conn = s.conn ∧ s'.sender = s.sender)
  | opened (fd : ℤ) (type : SocketType) (recvs : List RecvAnswer) (sends : List SendAnswer)
      (hhistory : io'.history = io.history ++ [(fd, type)]) (hout : out = [])
      (hsockets : io'.sockets = Function.update io.sockets fd
        (some (Socket.new io.history.length type recvs sends)))
  | answered (fd msgid : ℤ) (payload : List Byte) (s : Socket sendCap) (hs : io.sockets fd = some s)
      (haccepted : (s.sender.writeMessage (encodedMessage fd msgid payload)).1 = true)
      (hhistory : io'.history = io.history) (hout : out = [.answer ⟨s.conn, fd, msgid, payload⟩])
      (hsockets : io'.sockets = Function.update io.sockets fd
        (some { s with sender := (s.sender.writeMessage (encodedMessage fd msgid payload)).2 }))
  | written (fd : ℤ) (s : Socket sendCap) (hs : io.sockets fd = some s) (hhistory : io'.history = io.history)
      (hout : out = [.sent s.conn (s.sender.pollWriteTurn.2.wire.drop s.sender.wire.length)])
      (hsockets : io'.sockets = Function.update io.sockets fd (some { s with sender := s.sender.pollWriteTurn.2 }))

/-- A step that leaves the table and the history alone. -/
theorem Sends.still {io io' : IoThread cap sendCap} (hhistory : io'.history = io.history)
    (hsockets : io'.sockets = io.sockets) : io.Sends io' [] := by
  refine .kept hhistory rfl fun fd s' hs' => ?_
  rw [hsockets] at hs'
  exact ⟨s', hs', rfl, rfl⟩

/-- A step after which a socket is gone. -/
theorem Sends.removed {io io₁ io' : IoThread cap sendCap} {fd : ℤ} (h : io.removeSocket fd = some io₁)
    (hhistory : io'.history = io₁.history) (hsockets : io'.sockets = io₁.sockets) : io.Sends io' [] := by
  obtain ⟨hhistory₁, hsockets₁, -, -⟩ := removeSocket_frame h
  refine .kept (hhistory.trans hhistory₁) rfl
    (forall_update (hsockets.trans hsockets₁) (fun fd' s' _ hs' => ?_) fun s' hs' => ?_)
  · exact ⟨s', hs', rfl, rfl⟩
  · cases hs'

theorem newSocket_sends (io : IoThread cap sendCap) (fd : ℤ) (type : SocketType) (recvs : List RecvAnswer)
    (sends : List SendAnswer) (pollAdd : Bool) : io.Sends (io.newSocket fd type recvs sends pollAdd) [] := by
  unfold newSocket
  rcases addSocket_cases io fd type recvs sends pollAdd with he | he | ⟨-, -, -, he⟩ <;> simp only [he]
  · exact .still rfl rfl
  · exact .still rfl rfl
  · exact .opened fd type recvs sends rfl rfl rfl

theorem acceptSocket_sends (io : IoThread cap sendCap) (fd : ℤ) (recvs : List RecvAnswer) (sends : List SendAnswer)
    (pollAdd : Bool) : io.Sends (io.acceptSocket fd recvs sends pollAdd) [] := by
  unfold acceptSocket
  rcases addSocket_cases io fd .connection recvs sends pollAdd with he | he | ⟨-, -, -, he⟩ <;> simp only [he]
  · exact .still rfl rfl
  · exact .still rfl rfl
  · obtain ⟨hhistory, hsockets, -⟩ := pushEvent_frame { io with
      sockets := Function.update io.sockets fd (some (Socket.new io.history.length .connection recvs sends))
      history := io.history ++ [(fd, .connection)] } .establishConnection io.history.length fd
    exact .opened fd .connection recvs sends hhistory rfl hsockets

theorem readSocket_frame (io : IoThread cap sendCap) (fd : ℤ) :
    (io.readSocket fd).history = io.history ∧ (io.readSocket fd).sockets = io.sockets := by
  unfold readSocket
  split_ifs
  · split
    · exact ⟨rfl, rfl⟩
    · split_ifs <;> exact ⟨rfl, rfl⟩
  · exact ⟨rfl, rfl⟩

theorem writeSocket_frame (io : IoThread cap sendCap) (fd : ℤ) :
    (io.writeSocket fd).history = io.history ∧ (io.writeSocket fd).sockets = io.sockets := by
  unfold writeSocket
  split_ifs
  · split
    · exact ⟨rfl, rfl⟩
    · split_ifs <;> exact ⟨rfl, rfl⟩
  · exact ⟨rfl, rfl⟩

/-- `slam_io_response` puts the message into the queue of the socket it finds, or does nothing. -/
theorem respond_sends {io io' : IoThread cap sendCap} {fd msgid : ℤ} {payload : List Byte} {pollout : Bool}
    (hhistory : io'.history = io.history)
    (hsockets : io'.sockets = (ioResponse Socket.writeMessage io.sockets (encodedMessage fd msgid payload) pollout).2) :
    io.Sends io' (io.outgoing (.respond fd msgid payload pollout) io') := by
  have hmessage : ({ encodedMessage fd msgid payload with bytesize := 0 } : Message) =
      encodedMessage fd msgid payload := rfl
  have hfd : (encodedMessage fd msgid payload).fd = fd := rfl
  rw [ioResponse, hmessage, hfd] at hsockets
  simp only [outgoing]
  by_cases hvalid : ValidSocket fd
  · rw [if_neg (not_not.2 hvalid)] at hsockets
    rw [if_pos hvalid]
    cases hs : io.sockets fd with
    | none =>
      simp only [hs] at hsockets
      exact .still hhistory hsockets
    | some s =>
      simp only [hs, Socket.writeMessage] at hsockets
      rw [Option.elim_some]
      cases haccepted : (s.sender.writeMessage (encodedMessage fd msgid payload)).1 with
      | false =>
        simp only [haccepted] at hsockets
        exact .still hhistory hsockets
      | true =>
        simp only [haccepted] at hsockets
        exact .answered fd msgid payload s hs haccepted hhistory rfl hsockets
  · rw [if_pos hvalid] at hsockets
    rw [if_neg hvalid]
    exact .still hhistory hsockets

theorem ioTurn_sends {io io' : IoThread cap sendCap} (h : io.ioTurn maxPackageSize = some io') :
    io.Sends io' (io.outgoing .turn io') := by
  unfold ioTurn at h
  unfold outgoing
  dsimp only
  rcases hcontrol : io.control with _ | fd | fd | fd | fd <;> simp only [hcontrol] at h ⊢
  case reading =>
    obtain ⟨s, hs, rfl⟩ := Option.map_eq_some_iff.1 h
    refine .kept rfl rfl (forall_update rfl (fun fd' s' _ hs' => ?_) fun s' hs' => ?_)
    · exact ⟨s', hs', rfl, rfl⟩
    · cases hs'
      exact ⟨s, hs, rfl, rfl⟩
  case writing =>
    obtain ⟨s, hs, rfl⟩ := Option.map_eq_some_iff.1 h
    rw [hs]
    exact .written fd s hs rfl rfl rfl
  case removing =>
    rcases hrem : io.removeSocket fd with _ | io₁ <;> simp only [hrem] at h <;> cases h
    · exact .still rfl rfl
    · exact .removed hrem rfl rfl
  all_goals cases h

/-- **What a step does to the sending sides.** -/
theorem step_sends {io io' : IoThread cap sendCap} {e : IoEvent} (h : io.step maxPackageSize e = some io') :
    io.Sends io' (io.outgoing e io') := by
  unfold step at h
  by_cases hrun : io.aborted = true
  · rw [if_pos hrun] at h
    cases h
  rw [if_neg hrun] at h
  cases e with
  | pollError fd =>
    dsimp only at h
    split_ifs at h
    rcases hrem : io.removeSocket fd with _ | io₁ <;> rw [hrem] at h <;> cases h
    · exact .still rfl rfl
    · exact .removed hrem rfl rfl
  | pollIn fd =>
    dsimp only at h
    split_ifs at h
    cases h
    obtain ⟨hhistory, hsockets⟩ := readSocket_frame io fd
    exact .still hhistory hsockets
  | pollOut fd =>
    dsimp only at h
    split_ifs at h
    cases h
    obtain ⟨hhistory, hsockets⟩ := writeSocket_frame io fd
    exact .still hhistory hsockets
  | accept fd pollAdd recvs sends =>
    dsimp only at h
    split at h <;> cases h
    exact acceptSocket_sends io fd recvs sends pollAdd
  | acceptDone =>
    dsimp only at h
    split at h <;> cases h
    exact .still rfl rfl
  | turn => exact ioTurn_sends h
  | pop =>
    dsimp only [popMessage] at h
    split at h <;> cases h
    exact .still rfl rfl
  | respond fd msgid payload pollout =>
    cases h
    exact respond_sends rfl rfl
  | handled =>
    dsimp only at h
    split_ifs at h
    cases h
    exact .still rfl rfl
  | newServer fd pollAdd =>
    cases h
    exact newSocket_sends io fd .server [] [] pollAdd
  | newClient fd pollAdd recvs sends =>
    cases h
    exact newSocket_sends io fd .client recvs sends pollAdd

/-! ### The invariant -/

/-- The sending side of every socket is sound, with the answers and the bytes noted for its connection; and
what was sent on a connection, whether its socket is still there or not, is the first bytes of its answers. -/
structure Sending (io : IoThread cap sendCap) (out : List Outgoing) : Prop where
  owned : ∀ fd s, io.sockets fd = some s → ∃ type, io.history[s.conn]? = some (fd, type)
  fresh : ∀ c, io.history.length ≤ c → answersOf out c = [] ∧ sentOf out c = []
  sound : ∀ fd s, io.sockets fd = some s → s.sender.Sound
  accepted : ∀ fd s, io.sockets fd = some s → s.sender.accepted = (answersOf out s.conn).map Answer.message
  wire : ∀ fd s, io.sockets fd = some s → s.sender.wire = sentOf out s.conn
  front : ∀ c, sentOf out c <+: bufs ((answersOf out c).map Answer.message)

theorem sending_new : Sending (new cap sendCap) [] := by
  constructor <;> simp [new, answersOf, sentOf]

section Step

variable {io io' : IoThread cap sendCap} {out : List Outgoing}

theorem Sending.kept (h : Sending io out) (hhistory : io'.history = io.history)
    (hsockets : ∀ fd s', io'.sockets fd = some s' →
      ∃ s, io.sockets fd = some s ∧ s'.conn = s.conn ∧ s'.sender = s.sender) : Sending io' out where
  owned fd s' hs' := by
    obtain ⟨s, hs, hconn, -⟩ := hsockets fd s' hs'
    rw [hhistory, hconn]
    exact h.owned fd s hs
  fresh c hc := h.fresh c (hhistory ▸ hc)
  sound fd s' hs' := by
    obtain ⟨s, hs, -, hsender⟩ := hsockets fd s' hs'
    rw [hsender]
    exact h.sound fd s hs
  accepted fd s' hs' := by
    obtain ⟨s, hs, hconn, hsender⟩ := hsockets fd s' hs'
    rw [hsender, hconn]
    exact h.accepted fd s hs
  wire fd s' hs' := by
    obtain ⟨s, hs, hconn, hsender⟩ := hsockets fd s' hs'
    rw [hsender, hconn]
    exact h.wire fd s hs
  front := h.front

theorem Sending.opened (h : Sending io out) {fd : ℤ} {type : SocketType} {recvs : List RecvAnswer}
    {sends : List SendAnswer} (hhistory : io'.history = io.history ++ [(fd, type)])
    (hsockets : io'.sockets = Function.update io.sockets fd
      (some (Socket.new io.history.length type recvs sends))) : Sending io' out := by
  have hall {p : ℤ → Socket sendCap → Prop} (hold : ∀ fd' s, io.sockets fd' = some s → p fd' s)
      (hnew : p fd (Socket.new io.history.length type recvs sends)) :
      ∀ fd' s, io'.sockets fd' = some s → p fd' s :=
    forall_update hsockets (fun fd' s _ => hold fd' s) fun s hs => Option.some.inj hs ▸ hnew
  obtain ⟨hanswers, hsent⟩ := h.fresh io.history.length le_rfl
  refine ⟨hall (fun fd' s hs => ?_) ⟨type, ?_⟩, fun c hc => h.fresh c ?_, hall h.sound ?_, hall h.accepted ?_,
    hall h.wire ?_, h.front⟩
  · obtain ⟨type', hown⟩ := h.owned fd' s hs
    exact ⟨type', by rw [hhistory, List.getElem?_append_left (List.getElem?_eq_some_iff.1 hown).1, hown]⟩
  · rw [hhistory]
    exact List.getElem?_concat_length
  · rw [hhistory, List.length_append] at hc
    omega
  · exact Sender.sound_new sends
  · show [] = (answersOf out io.history.length).map Answer.message
    rw [hanswers, List.map_nil]
  · show [] = sentOf out io.history.length
    rw [hsent]

/-- One sending side goes on, and what is noted is noted for its connection. -/
theorem Sending.sender (h : Sending io out) {fd : ℤ} {s : Socket sendCap} {sender' : Sender sendCap}
    {more : List Outgoing} (hs : io.sockets fd = some s) (hhistory : io'.history = io.history)
    (hsockets : io'.sockets = Function.update io.sockets fd (some { s with sender := sender' }))
    (hsound : sender'.Sound) (haccepted : sender'.accepted = (answersOf (out ++ more) s.conn).map Answer.message)
    (hwire : sender'.wire = sentOf (out ++ more) s.conn)
    (hothers : ∀ c ≠ s.conn, answersOf more c = [] ∧ sentOf more c = []) : Sending io' (out ++ more) := by
  obtain ⟨type, hown⟩ := h.owned fd s hs
  have hlt := (List.getElem?_eq_some_iff.1 hown).1
  have hsame : ∀ c ≠ s.conn, answersOf (out ++ more) c = answersOf out c ∧ sentOf (out ++ more) c = sentOf out c := by
    intro c hc
    obtain ⟨hanswers, hsent⟩ := hothers c hc
    simp [hanswers, hsent]
  have hall {p : ℤ → Socket sendCap → Prop} (hold : ∀ fd' s', fd' ≠ fd → io.sockets fd' = some s' → p fd' s')
      (hnew : p fd { s with sender := sender' }) : ∀ fd' s', io'.sockets fd' = some s' → p fd' s' :=
    forall_update hsockets hold fun s' hs' => Option.some.inj hs' ▸ hnew
  refine ⟨?_, fun c hc => ?_, hall (fun fd' s' _ => h.sound fd' s') hsound,
    hall (fun fd' s' hfd hs' => ?_) haccepted, hall (fun fd' s' hfd hs' => ?_) hwire, fun c => ?_⟩
  · rw [hhistory]
    exact hall (fun fd' s' _ => h.owned fd' s') ⟨type, hown⟩
  · rw [hhistory] at hc
    obtain ⟨hanswers, hsent⟩ := hsame c (by omega)
    rw [hanswers, hsent]
    exact h.fresh c hc
  · rw [(hsame s'.conn (conn_ne_of_owned h.owned hs hs' hfd)).1]
    exact h.accepted fd' s' hs'
  · rw [(hsame s'.conn (conn_ne_of_owned h.owned hs hs' hfd)).2]
    exact h.wire fd' s' hs'
  · by_cases hc : c = s.conn
    · subst hc
      rw [← hwire, ← haccepted]
      exact hsound.integrity.wire_prefix
    · obtain ⟨hanswers, hsent⟩ := hsame c hc
      rw [hanswers, hsent]
      exact h.front c

theorem Sending.answered (h : Sending io out) {fd msgid : ℤ} {payload : List Byte} {s : Socket sendCap}
    (hs : io.sockets fd = some s) (haccepted : (s.sender.writeMessage (encodedMessage fd msgid payload)).1 = true)
    (hhistory : io'.history = io.history)
    (hsockets : io'.sockets = Function.update io.sockets fd
      (some { s with sender := (s.sender.writeMessage (encodedMessage fd msgid payload)).2 })) :
    Sending io' (out ++ [.answer ⟨s.conn, fd, msgid, payload⟩]) := by
  obtain ⟨hmessages, hwire⟩ := Sender.writeMessage_frame haccepted
  refine h.sender hs hhistory hsockets ((h.sound fd s hs).writeMessage (encodedMessage_unsent fd msgid payload)) ?_ ?_ ?_
  · rw [hmessages, h.accepted fd s hs]
    simp [Answer.message]
  · rw [hwire, h.wire fd s hs]
    simp
  · intro c hc
    simp [hc.symm]

theorem Sending.written (h : Sending io out) {fd : ℤ} {s : Socket sendCap} (hs : io.sockets fd = some s)
    (hhistory : io'.history = io.history)
    (hsockets : io'.sockets = Function.update io.sockets fd (some { s with sender := s.sender.pollWriteTurn.2 })) :
    Sending io' (out ++ [.sent s.conn (s.sender.pollWriteTurn.2.wire.drop s.sender.wire.length)]) := by
  obtain ⟨hmessages, more, hmore⟩ := s.sender.pollWriteTurn_frame
  refine h.sender hs hhistory hsockets (h.sound fd s hs).pollWriteTurn.2 ?_ ?_ ?_
  · rw [hmessages, h.accepted fd s hs]
    simp
  · rw [← hmore, List.drop_left, sentOf_append, sentOf_sent, if_pos rfl, h.wire fd s hs]
  · intro c hc
    simp [hc.symm]

/-- One step keeps the invariant. -/
theorem Sending.step (h : Sending io out) {e : IoEvent} (hstep : io.step maxPackageSize e = some io') :
    Sending io' (out ++ io.outgoing e io') := by
  cases step_sends hstep with
  | kept hhistory hout hsockets =>
    rw [hout, List.append_nil]
    exact h.kept hhistory hsockets
  | opened fd type recvs sends hhistory hout hsockets =>
    rw [hout, List.append_nil]
    exact h.opened hhistory hsockets
  | answered fd msgid payload s hs haccepted hhistory hout hsockets =>
    rw [hout]
    exact h.answered hs haccepted hhistory hsockets
  | written fd s hs hhistory hout hsockets =>
    rw [hout]
    exact h.written hs hhistory hsockets

end Step

/-- **What is sent on a connection is its answers.** In every run of the two threads. -/
theorem sending_run {es : List IoEvent} {io : IoThread cap sendCap}
    (hrun : (system cap sendCap maxPackageSize).run (new cap sendCap) es = some io) :
    Sending io (outgoings cap sendCap maxPackageSize es) :=
  Machine.invariant_notes (M := system cap sendCap maxPackageSize) (I := fun io out => Sending io out)
    (fun _ _ _ _ h hstep => h.step hstep) sending_new hrun

/-- An answer is noted when it is given. -/
theorem respond_of_mem_outgoing {io io' : IoThread cap sendCap} {e : IoEvent} {a : Answer}
    (h : .answer a ∈ io.outgoing e io') : ∃ pollout, e = .respond a.fd a.msgid a.payload pollout := by
  unfold outgoing at h
  cases e with
  | respond fd msgid payload pollout =>
    dsimp only at h
    split_ifs at h
    · cases hs : io.sockets fd with
      | none => simp [hs] at h
      | some s =>
        rw [hs, Option.elim_some] at h
        split_ifs at h
        · cases List.mem_singleton.1 h
          exact ⟨pollout, rfl⟩
        · cases h
    · cases h
  | turn =>
    dsimp only at h
    split at h
    · rename_i fd _
      cases hs : io.sockets fd <;> simp [hs] at h
    · cases h
  | _ => cases h

/-- Every answer was given by a call of `cc.response` in the run. -/
theorem mem_of_answersOf {es : List IoEvent} {c : ℕ} {a : Answer}
    (h : a ∈ answersOf (outgoings cap sendCap maxPackageSize es) c) :
    ∃ pollout, IoEvent.respond a.fd a.msgid a.payload pollout ∈ es := by
  simp only [answersOf, List.mem_flatMap] at h
  obtain ⟨x, hx, hax⟩ := h
  cases x with
  | sent conn bytes => simp at hax
  | answer b =>
    dsimp only at hax
    split_ifs at hax
    · obtain rfl := List.mem_singleton.1 hax
      obtain ⟨e, he, io, io', -, hout⟩ := Machine.mem_notes hx
      obtain ⟨pollout, rfl⟩ := respond_of_mem_outgoing hout
      exact ⟨pollout, he⟩
    · cases hax

end IoThread
end Slam
