import Slam.Io.Connection
import Slam.Io.Segmentation

/-!
# What the worker gets of every byte stream

All connections push into one queue, descriptors are reused, the queue may be full at any moment, and
the worker pops and answers in between. Still each connection's packages are its own: in every run of
the two threads the packages of a connection, popped and queued, are the first frames of the bytes that
`recv` has delivered on it, whole and in order (`packages_delivered`). As long as the socket is in the
table and is not about to be removed, the other bytes delivered are in its `readmessage`.

The streams are not part of the state: `scripts` collects the answers of `recv` that come with the
events that put a socket into the table, so the connection with serial number `c` has script number `c`.
-/

namespace Slam

/-! ### Where a turn of the read loop puts a message -/

section Pushed

variable {Q : Type*} {pushBack : Q → Message → Option Q} {maxPackageSize : ℕ} {fd : ℤ}
  {readmessage : Option Message} {q : Q} {script : List RecvAnswer} {e : Option PollReadEnd}
  {r : Receiver Q}

/-- A turn that has accepted nothing before, and the same turn after the messages `ms`. -/
structure Pushed (pushBack : Q → Message → Option Q) (q : Q) (ms : List Message)
    (e : Option PollReadEnd) (r r' : Receiver Q) : Prop where
  after : r' = { r with pushed := ms ++ r.pushed }
  queued : (r.readmq = q ∧ r.pushed = []) ∨
    ∃ m, e = none ∧ pushBack q m = some r.readmq ∧ r.pushed = [m]

theorem pollReadBody_pushed (ms : List Message) (m : Message)
    (h : pollReadBody pushBack m ⟨readmessage, q, script, []⟩ = (e, r)) :
    ∃ r', pollReadBody pushBack m ⟨readmessage, q, script, ms⟩ = (e, r') ∧
      Pushed pushBack q ms e r r' := by
  unfold pollReadBody at h ⊢
  dsimp only at h ⊢
  split_ifs at h ⊢ with hassert hfull
  · rcases hpush : pushBack q m with _ | q' <;> simp only [hpush] at h ⊢ <;> cases h
    · exact ⟨_, rfl, by simp, .inl ⟨rfl, rfl⟩⟩
    · exact ⟨_, rfl, by simp, .inr ⟨m, rfl, hpush, rfl⟩⟩
  · rcases hread : readBytes (m.bufsize - m.bytesize) script [] with ⟨_ | bytes, s'⟩ <;>
      simp only [hread] at h ⊢
    · cases h
      exact ⟨_, rfl, by simp, .inl ⟨rfl, rfl⟩⟩
    · split_ifs at h ⊢ <;> cases h <;> exact ⟨_, rfl, by simp, .inl ⟨rfl, rfl⟩⟩
  · cases h
    exact ⟨_, rfl, by simp, .inl ⟨rfl, rfl⟩⟩

/-- A turn pushes at most one message, and does not look at those pushed before. -/
theorem pollReadTurn_pushed (ms : List Message)
    (h : pollReadTurn pushBack maxPackageSize fd ⟨readmessage, q, script, []⟩ = (e, r)) :
    ∃ r', pollReadTurn pushBack maxPackageSize fd ⟨readmessage, q, script, ms⟩ = (e, r') ∧
      Pushed pushBack q ms e r r' := by
  unfold pollReadTurn at h ⊢
  cases readmessage with
  | some m => exact pollReadBody_pushed ms m h
  | none =>
    rcases hlen : pollReadLen maxPackageSize fd script with ⟨e' | m, s'⟩ <;> simp only [hlen] at h ⊢
    · cases h
      exact ⟨_, rfl, by simp, .inl ⟨rfl, rfl⟩⟩
    · exact pollReadBody_pushed ms m h

end Pushed

/-! ### The packages of one connection -/

/-- The messages are packages read whole, and together the first bytes of what the script delivers. -/
structure Framed (maxPackageSize : ℕ) (fd : ℤ) (script : List RecvAnswer) (ms : List Message) : Prop where
  front : ms.flatMap Message.buf <+: streamBytes script
  complete : ∀ m ∈ ms, m.Sized maxPackageSize fd ∧ m.bytesize = m.bufsize

theorem Receiver.Sound.framed {Q : Type*} {maxPackageSize : ℕ} {fd : ℤ} {script : List RecvAnswer}
    {r : Receiver Q} (h : r.Sound maxPackageSize fd (streamBytes script)) :
    Framed maxPackageSize fd script r.pushed :=
  ⟨⟨r.pending ++ streamBytes r.script, by rw [h.conserved, List.append_assoc]⟩, h.complete⟩

/-- Of a stream of frames they are the first ones. -/
theorem Framed.frames {maxPackageSize : ℕ} {fd : ℤ} {script : List RecvAnswer} {ms : List Message}
    (h : Framed maxPackageSize fd script ms) {frames : List (List Byte)}
    (hframes : ∀ f ∈ frames, Frame maxPackageSize f) (hstream : streamBytes script = frames.flatten) :
    ms <+: frames.map (frameMessage fd) := by
  obtain ⟨rest, hrest⟩ := h.front
  obtain ⟨script', hscript'⟩ : ∃ script', streamBytes script' = rest := by
    cases rest with
    | nil => exact ⟨[], rfl⟩
    | cons b bs => exact ⟨[.data b bs], by simp [RecvAnswer.bytes]⟩
  -- A receiver that has pushed them and has the rest of the stream before it.
  have hsound : Receiver.Sound maxPackageSize fd frames.flatten (⟨none, (), script', ms⟩ : Receiver Unit) := by
    refine ⟨?_, h.complete, by simp⟩
    rw [← hstream, ← hrest, hscript']
    simp [Receiver.pending]
  obtain ⟨done, rest', hsplit, hms, -⟩ := hsound.pushed_eq hframes
  simp only at hms
  rw [hsplit, List.map_append, hms]
  exact List.prefix_append _ _

namespace IoThread

variable {cap sendCap maxPackageSize : ℕ}

/-- The packages of connection `c`, in order. -/
def packages (xs : List (ℕ × Message)) (c : ℕ) : List Message :=
  (messagesOf xs c).filter fun m => m.type = .protobufPackage

theorem packages_append (xs ys : List (ℕ × Message)) (c : ℕ) :
    packages (xs ++ ys) c = packages xs c ++ packages ys c := by
  simp [packages, messagesOf_append]

theorem packages_of_ne {c c' : ℕ} (h : c' ≠ c) (m : Message) : packages [(c', m)] c = [] := by
  simp [packages, messagesOf_of_ne h]

/-- An event is not a package. -/
theorem packages_event {type : MessageType} (h : type ≠ .protobufPackage) (conn : ℕ) (fd : ℤ) (c : ℕ) :
    packages [(conn, Message.new fd type 0)] c = [] := by
  by_cases hc : conn = c
  · simp [packages, hc, messagesOf_self, Message.new, h]
  · exact packages_of_ne hc _

theorem packages_self (c : ℕ) {m : Message} (h : m.type = .protobufPackage) :
    packages [(c, m)] c = [m] := by
  simp [packages, messagesOf_self, h]

theorem packages_map {c : ℕ} {ms : List Message} (h : ∀ m ∈ ms, m.type = .protobufPackage) :
    packages (ms.map fun m => (c, m)) c = ms := by
  induction ms with
  | nil => rfl
  | cons m ms ih =>
    rw [List.map_cons, ← List.singleton_append, packages_append, packages_self c (h m (by simp)),
      ih fun m' hm' => h m' (by simp [hm'])]
    rfl

theorem packages_map_of_ne {c c' : ℕ} (h : c' ≠ c) (ms : List Message) :
    packages (ms.map fun m => (c', m)) c = [] := by
  have hnone : messagesOf (ms.map fun m => (c', m)) c = [] := messagesOf_eq_nil (by simp [h])
  rw [packages, hnone, List.filter_nil]

/-- The answers of `recv` that come with an event. -/
def recvsOf : IoEvent → List RecvAnswer
  | .accept _ _ recvs _ | .newClient _ _ recvs _ => recvs
  | _ => []

/-- The script of the socket that a step put into the table. -/
def opening (io : IoThread cap sendCap) (e : IoEvent) (io' : IoThread cap sendCap) :
    List (List RecvAnswer) :=
  if io'.history.length = io.history.length then [] else [recvsOf e]

/-- The scripts of the sockets of a run, by serial number. -/
def scripts (cap sendCap maxPackageSize : ℕ) (es : List IoEvent) : List (List RecvAnswer) :=
  (system cap sendCap maxPackageSize).notes opening (new cap sendCap) es

/-- What `readmessage` holds. -/
def receivedPart (s : Socket sendCap) : List Byte := s.readmessage.elim [] fun m => m.buf.take m.bytesize

/-- The receiving side of a socket, after the packages `ms`. -/
def receiver (io : IoThread cap sendCap) (s : Socket sendCap) (ms : List Message) :
    Receiver (BoundedFifo (ℕ × Message) cap) :=
  ⟨s.readmessage, io.mq, s.recvScript, ms⟩

/-! ### One place of the table -/

/-- What holds of the other sockets, and of the one put in, holds of all. -/
theorem forall_update {sockets sockets' : ℤ → Option (Socket sendCap)} {fd : ℤ} {s : Option (Socket sendCap)}
    (hsockets : sockets' = Function.update sockets fd s) {p : ℤ → Socket sendCap → Prop}
    (hold : ∀ fd' s', fd' ≠ fd → sockets fd' = some s' → p fd' s') (hnew : ∀ s', s = some s' → p fd s') :
    ∀ fd' s', sockets' fd' = some s' → p fd' s' := by
  intro fd' s' hs'
  rw [hsockets] at hs'
  by_cases hfd : fd' = fd
  · subst hfd
    rw [Function.update_self] at hs'
    exact hnew s' hs'
  · rw [Function.update_of_ne hfd] at hs'
    exact hold fd' s' hfd hs'

/-- A socket at another descriptor has another serial number. -/
theorem conn_ne_of_owned {io : IoThread cap sendCap}
    (howned : ∀ fd s, io.sockets fd = some s → ∃ type, io.history[s.conn]? = some (fd, type)) {fd fd' : ℤ}
    {s s' : Socket sendCap} (hs : io.sockets fd = some s) (hs' : io.sockets fd' = some s') (hfd : fd' ≠ fd) :
    s'.conn ≠ s.conn := by
  intro heq
  obtain ⟨type, hown⟩ := howned fd s hs
  obtain ⟨type', hown'⟩ := howned fd' s' hs'
  rw [heq, hown] at hown'
  cases hown'
  exact hfd rfl

/-! ### What a step does to the receiving sides -/

/-- Everything a step can do to the sockets, as far as receiving goes. -/
inductive Receives (maxPackageSize : ℕ) (io : IoThread cap sendCap) (e : IoEvent)
    (io' : IoThread cap sendCap) : Prop
  | kept (hhistory : io'.history = io.history) (hlog : ∀ c, packages io'.log c = packages io.log c)
      (hsockets : ∀ fd s', io'.sockets fd = some s' → ∃ s, io.sockets fd = some s ∧
        s'.conn = s.conn ∧ s'.readmessage = s.readmessage ∧ s'.recvScript = s.recvScript ∧
        (io.control = .removing fd → io'.control = .removing fd))
  | opened (fd : ℤ) (type : SocketType) (sends : List SendAnswer)
      (hhistory : io'.history = io.history ++ [(fd, type)])
      (hlog : ∀ c, packages io'.log c = packages io.log c)
      (hsockets : io'.sockets = Function.update io.sockets fd
        (some (Socket.new io.history.length type (recvsOf e) sends)))
      (hcontrol : io'.control = io.control)
  | turned (fd : ℤ) (s : Socket sendCap) (hs : io.sockets fd = some s)
      (hcontrol : io.control = .reading fd) (heq : io' = io.readTurn maxPackageSize fd s)

/-- A step that leaves the table, the history and the messages alone. -/
theorem Receives.still {io io' : IoThread cap sendCap} {e : IoEvent} (hhistory : io'.history = io.history)
    (hlog : io'.log = io.log) (hsockets : io'.sockets = io.sockets)
    (hcontrol : ∀ fd, io.control = .removing fd → io'.control = .removing fd) :
    io.Receives maxPackageSize e io' := by
  refine .kept hhistory (fun c => by rw [hlog]) fun fd s' hs' => ?_
  rw [hsockets] at hs'
  exact ⟨s', hs', rfl, rfl, rfl, hcontrol fd⟩

/-- A step that changes the sending side of a socket. -/
theorem Receives.sender {io io' : IoThread cap sendCap} {e : IoEvent} {fd : ℤ} {s : Socket sendCap}
    {sender' : Sender sendCap} (hs : io.sockets fd = some s) (hhistory : io'.history = io.history)
    (hlog : io'.log = io.log)
    (hsockets : io'.sockets = Function.update io.sockets fd (some { s with sender := sender' }))
    (hcontrol : ∀ fd, io.control = .removing fd → io'.control = .removing fd) :
    io.Receives maxPackageSize e io' := by
  refine .kept hhistory (fun c => by rw [hlog]) (forall_update hsockets (fun fd' s' _ hs' => ?_) fun s' hs' => ?_)
  · exact ⟨s', hs', rfl, rfl, rfl, hcontrol fd'⟩
  · cases hs'
    exact ⟨s, hs, rfl, rfl, rfl, hcontrol fd⟩

theorem pushEvent_packages {io : IoThread cap sendCap} {type : MessageType}
    (htype : type ≠ .protobufPackage) (conn : ℕ) (fd : ℤ) (c : ℕ) :
    packages (io.pushEvent type conn fd).2.log c = packages io.log c := by
  rcases pushEvent_cases io type conn fd with ⟨-, he⟩ | ⟨q, hq, he⟩ <;> rw [he]
  have happ : io.Appends { io with mq := q } [(conn, Message.new fd type 0)] := appends_of_push hq rfl rfl rfl
  rw [happ.log, packages_append, packages_event htype, List.append_nil]

theorem pushEvent_frame (io : IoThread cap sendCap) (type : MessageType) (conn : ℕ) (fd : ℤ) :
    (io.pushEvent type conn fd).2.history = io.history ∧
      (io.pushEvent type conn fd).2.sockets = io.sockets ∧
      (io.pushEvent type conn fd).2.control = io.control := by
  rcases pushEvent_cases io type conn fd with ⟨-, he⟩ | ⟨q, -, he⟩ <;> rw [he] <;> exact ⟨rfl, rfl, rfl⟩

/-- `slam_io_thread_remove_socket` empties one place of the table and queues no package. -/
theorem removeSocket_frame {io io' : IoThread cap sendCap} {fd : ℤ} (h : io.removeSocket fd = some io') :
    io'.history = io.history ∧ io'.sockets = Function.update io.sockets fd none ∧
      io'.control = io.control ∧ ∀ c, packages io'.log c = packages io.log c := by
  unfold removeSocket at h
  by_cases hvalid : ValidSocket fd
  · rw [if_neg (not_not.2 hvalid)] at h
    rcases hs : io.sockets fd with _ | s <;> simp only [hs] at h <;> cases h
    · exact ⟨rfl, (Function.update_eq_self_iff.2 hs.symm).symm, rfl, fun c => rfl⟩
    · obtain ⟨hhistory, hsockets, hcontrol⟩ := pushEvent_frame
        { io with sockets := Function.update io.sockets fd none } .lostConnection s.conn fd
      exact ⟨hhistory, hsockets, hcontrol, pushEvent_packages (by decide) s.conn fd⟩
  · rw [if_pos hvalid] at h
    cases h

/-- The socket that is removed is the one that was to be removed, if any was. -/
theorem Receives.removed {io io₁ io' : IoThread cap sendCap} {e : IoEvent} {fd : ℤ}
    (h : io.removeSocket fd = some io₁) (hhistory : io'.history = io₁.history) (hlog : io'.log = io₁.log)
    (hsockets : io'.sockets = io₁.sockets) (hcontrol : ∀ fd', io.control = .removing fd' → fd' = fd) :
    io.Receives maxPackageSize e io' := by
  obtain ⟨hhistory₁, hsockets₁, -, hlog₁⟩ := removeSocket_frame h
  refine .kept (hhistory.trans hhistory₁) (fun c => by rw [hlog, hlog₁])
    (forall_update (hsockets.trans hsockets₁) (fun fd' s' hfd hs' => ?_) fun s' hs' => ?_)
  · exact ⟨s', hs', rfl, rfl, rfl, fun hc => absurd (hcontrol fd' hc) hfd⟩
  · cases hs'

theorem newSocket_receives (io : IoThread cap sendCap) (fd : ℤ) (type : SocketType)
    (sends : List SendAnswer) (pollAdd : Bool) (e : IoEvent) :
    io.Receives maxPackageSize e (io.newSocket fd type (recvsOf e) sends pollAdd) := by
  unfold newSocket
  rcases addSocket_cases io fd type (recvsOf e) sends pollAdd with he | he | ⟨-, -, -, he⟩ <;>
    simp only [he]
  · exact .still rfl rfl rfl fun _ => id
  · exact .still rfl rfl rfl fun _ => id
  · exact .opened fd type sends rfl (fun c => rfl) rfl rfl

theorem acceptSocket_receives (io : IoThread cap sendCap) (fd : ℤ) (pollAdd : Bool)
    (recvs : List RecvAnswer) (sends : List SendAnswer) :
    io.Receives maxPackageSize (.accept fd pollAdd recvs sends)
      (io.acceptSocket fd recvs sends pollAdd) := by
  unfold acceptSocket
  rcases addSocket_cases io fd .connection recvs sends pollAdd with he | he | ⟨-, -, -, he⟩ <;>
    simp only [he]
  · exact .still rfl rfl rfl fun _ => id
  · exact .still rfl rfl rfl fun _ => id
  · obtain ⟨hhistory, hsockets, hcontrol⟩ := pushEvent_frame { io with
      sockets := Function.update io.sockets fd
        (some (Socket.new io.history.length .connection recvs sends))
      history := io.history ++ [(fd, .connection)] } .establishConnection io.history.length fd
    exact .opened fd .connection sends hhistory (pushEvent_packages (by decide) _ fd) hsockets hcontrol

theorem ioTurn_receives {io io' : IoThread cap sendCap} (h : io.ioTurn maxPackageSize = some io') :
    io.Receives maxPackageSize .turn io' := by
  unfold ioTurn at h
  rcases hcontrol : io.control with _ | fd | fd | fd | fd <;> simp only [hcontrol] at h
  case reading =>
    obtain ⟨s, hs, rfl⟩ := Option.map_eq_some_iff.1 h
    exact .turned fd s hs hcontrol rfl
  case writing =>
    obtain ⟨s, hs, rfl⟩ := Option.map_eq_some_iff.1 h
    exact .sender hs rfl rfl rfl fun fd' hc => by rw [hcontrol] at hc; cases hc
  case removing =>
    rcases hrem : io.removeSocket fd with _ | io₁ <;> simp only [hrem] at h <;> cases h
    · exact .still rfl rfl rfl fun _ => id
    · refine .removed hrem rfl rfl rfl fun fd' hc => ?_
      rw [hcontrol] at hc
      cases hc
      rfl
  all_goals cases h

theorem readSocket_receives (io : IoThread cap sendCap) (fd : ℤ) (e : IoEvent) (hidle : io.control = .idle) :
    io.Receives maxPackageSize e (io.readSocket fd) := by
  have hnot : ∀ fd', io.control ≠ .removing fd' := fun fd' => by rw [hidle]; simp
  unfold readSocket
  split_ifs
  · split
    · exact .still rfl rfl rfl fun _ => id
    · split_ifs <;> exact .still rfl rfl rfl fun fd' hc => absurd hc (hnot fd')
  · exact .still rfl rfl rfl fun _ => id

theorem writeSocket_receives (io : IoThread cap sendCap) (fd : ℤ) (e : IoEvent)
    (hidle : io.control = .idle) : io.Receives maxPackageSize e (io.writeSocket fd) := by
  have hnot : ∀ fd', io.control ≠ .removing fd' := fun fd' => by rw [hidle]; simp
  unfold writeSocket
  split_ifs
  · split
    · exact .still rfl rfl rfl fun _ => id
    · split_ifs
      · exact .still rfl rfl rfl fun _ => id
      · exact .still rfl rfl rfl fun fd' hc => absurd hc (hnot fd')
  · exact .still rfl rfl rfl fun _ => id

theorem popMessage_receives {io io' : IoThread cap sendCap} (h : io.popMessage = some io') (e : IoEvent) :
    io.Receives maxPackageSize e io' := by
  unfold popMessage at h
  split at h
  · rename_i x q hhandling hpop
    cases h
    refine .still rfl ?_ rfl fun _ => id
    rw [log, log, BoundedFifo.pop_eq_some_iff.1 hpop, List.append_assoc]
    rfl
  · cases h

/-- **What a step does to the receiving sides.** -/
theorem step_receives {io io' : IoThread cap sendCap} {e : IoEvent}
    (h : io.step maxPackageSize e = some io') : io.Receives maxPackageSize e io' := by
  unfold step at h
  by_cases hrun : io.aborted = true
  · rw [if_pos hrun] at h
    cases h
  rw [if_neg hrun] at h
  cases e with
  | pollError fd =>
    dsimp only at h
    split_ifs at h with hidle
    rcases hrem : io.removeSocket fd with _ | io₁ <;> rw [hrem] at h <;> cases h
    · exact .still rfl rfl rfl fun _ => id
    · exact .removed hrem rfl rfl rfl fun fd' hc => by rw [hidle] at hc; cases hc
  | pollIn fd =>
    dsimp only at h
    split_ifs at h with hidle
    cases h
    exact readSocket_receives io fd _ hidle
  | pollOut fd =>
    dsimp only at h
    split_ifs at h with hidle
    cases h
    exact writeSocket_receives io fd _ hidle
  | accept fd pollAdd recvs sends =>
    dsimp only at h
    split at h <;> cases h
    exact acceptSocket_receives io fd pollAdd recvs sends
  | acceptDone =>
    dsimp only at h
    split at h <;> cases h
    rename_i fd hcontrol
    exact .still rfl rfl rfl fun fd' hc => by rw [hcontrol] at hc; cases hc
  | turn => exact ioTurn_receives h
  | pop => exact popMessage_receives h _
  | respond fd msgid payload pollout =>
    cases h
    rcases ioResponse_cases io.sockets (encodedMessage fd msgid payload) pollout with
      he | ⟨s, sender', hs, he⟩
    · exact .still rfl rfl he fun _ => id
    · exact .sender hs rfl rfl he fun _ => id
  | handled =>
    dsimp only at h
    split_ifs at h
    cases h
    exact .still rfl rfl rfl fun _ => id
  | newServer fd pollAdd =>
    cases h
    exact newSocket_receives io fd .server [] pollAdd (.newServer fd pollAdd)
  | newClient fd pollAdd recvs sends =>
    cases h
    exact newSocket_receives io fd .client sends pollAdd (.newClient fd pollAdd recvs sends)

/-! ### The invariant -/

/-- The packages of every connection are the first frames of its stream; and while the socket is in the
table, not about to be removed, its receiving side has lost nothing of the rest. -/
structure Receiving (maxPackageSize : ℕ) (io : IoThread cap sendCap) (streams : List (List RecvAnswer)) :
    Prop where
  length : streams.length = io.history.length
  owned : ∀ fd s, io.sockets fd = some s → ∃ type, io.history[s.conn]? = some (fd, type)
  fresh : ∀ c, io.history.length ≤ c → packages io.log c = []
  framed : ∀ c fd type script, io.history[c]? = some (fd, type) → streams[c]? = some script →
    Framed maxPackageSize fd script (packages io.log c)
  sound : ∀ fd s script, io.sockets fd = some s → io.control ≠ .removing fd →
    streams[s.conn]? = some script →
    (io.receiver s (packages io.log s.conn)).Sound maxPackageSize fd (streamBytes script)

theorem receiving_new : Receiving maxPackageSize (new cap sendCap) [] where
  length := rfl
  owned := nofun
  fresh _ _ := rfl
  framed c fd type script h := by simp [new] at h
  sound := nofun

section Step

variable {io io' : IoThread cap sendCap} {streams : List (List RecvAnswer)}

/-- What the receiving side of a socket must keep is told by its `readmessage`, its script and the
packages of its connection. -/
theorem Receiving.receiver_sound {s s' : Socket sendCap} {fd : ℤ} {stream : List Byte}
    (h : (io.receiver s (packages io.log s.conn)).Sound maxPackageSize fd stream)
    (hconn : s'.conn = s.conn) (hmessage : s'.readmessage = s.readmessage)
    (hscript : s'.recvScript = s.recvScript) (hlog : packages io'.log s.conn = packages io.log s.conn) :
    (io'.receiver s' (packages io'.log s'.conn)).Sound maxPackageSize fd stream := by
  obtain ⟨hconserved, hcomplete, hunderway⟩ := h
  rw [hconn, hlog, receiver, hmessage, hscript]
  exact ⟨hconserved, hcomplete, hunderway⟩

theorem Receiving.kept (h : Receiving maxPackageSize io streams) (hhistory : io'.history = io.history)
    (hlog : ∀ c, packages io'.log c = packages io.log c)
    (hsockets : ∀ fd s', io'.sockets fd = some s' → ∃ s, io.sockets fd = some s ∧
      s'.conn = s.conn ∧ s'.readmessage = s.readmessage ∧ s'.recvScript = s.recvScript ∧
      (io.control = .removing fd → io'.control = .removing fd)) :
    Receiving maxPackageSize io' streams where
  length := by rw [hhistory]; exact h.length
  owned fd s' hs' := by
    obtain ⟨s, hs, hconn, -⟩ := hsockets fd s' hs'
    rw [hhistory, hconn]
    exact h.owned fd s hs
  fresh c hc := by
    rw [hhistory] at hc
    rw [hlog]
    exact h.fresh c hc
  framed c fd type script hc hscript := by
    rw [hhistory] at hc
    rw [hlog]
    exact h.framed c fd type script hc hscript
  sound fd s' script hs' hcontrol hscript := by
    obtain ⟨s, hs, hconn, hmessage, hrest, hremoving⟩ := hsockets fd s' hs'
    rw [hconn] at hscript
    exact receiver_sound (h.sound fd s script hs (fun hc => hcontrol (hremoving hc)) hscript) hconn
      hmessage hrest (hlog s.conn)

theorem Receiving.opened (h : Receiving maxPackageSize io streams) {fd : ℤ} {type : SocketType}
    {recvs : List RecvAnswer} {sends : List SendAnswer} (hhistory : io'.history = io.history ++ [(fd, type)])
    (hlog : ∀ c, packages io'.log c = packages io.log c)
    (hsockets : io'.sockets = Function.update io.sockets fd
      (some (Socket.new io.history.length type recvs sends))) (hcontrol : io'.control = io.control) :
    Receiving maxPackageSize io' (streams ++ [recvs]) := by
  have hold : ∀ {c : ℕ}, c < io.history.length → io'.history[c]? = io.history[c]? ∧
      (streams ++ [recvs])[c]? = streams[c]? := fun hc => by
    rw [hhistory, List.getElem?_append_left hc, List.getElem?_append_left (h.length ▸ hc)]
    exact ⟨rfl, rfl⟩
  have hnew : io'.history[io.history.length]? = some (fd, type) ∧
      (streams ++ [recvs])[io.history.length]? = some recvs := by
    rw [hhistory, List.getElem?_concat_length, ← h.length, List.getElem?_concat_length]
    exact ⟨rfl, rfl⟩
  have hnone : packages io'.log io.history.length = [] := by rw [hlog, h.fresh _ le_rfl]
  have hlt : ∀ {fd' : ℤ} {s : Socket sendCap}, io.sockets fd' = some s → s.conn < io.history.length :=
    fun hs => (h.owned _ _ hs).elim fun _ ht => (List.getElem?_eq_some_iff.1 ht).1
  have hsound : ∀ fd' s, io'.sockets fd' = some s → ∀ script, io'.control ≠ .removing fd' →
      (streams ++ [recvs])[s.conn]? = some script →
      (io'.receiver s (packages io'.log s.conn)).Sound maxPackageSize fd' (streamBytes script) := by
    refine forall_update hsockets (fun fd' s _ hs script hremoving hscript => ?_) fun s hs script _ hscript => ?_
    · rw [(hold (hlt hs)).2] at hscript
      rw [hcontrol] at hremoving
      exact receiver_sound (h.sound fd' s script hs hremoving hscript) rfl rfl rfl (hlog s.conn)
    · -- The new socket starts on its own script with nothing received.
      cases hs
      rw [show (Socket.new io.history.length type recvs sends).conn = io.history.length from rfl] at *
      rw [hnew.2] at hscript
      cases hscript
      rw [hnone]
      exact Receiver.Sound.new maxPackageSize fd io'.mq recvs
  refine ⟨by simp [hhistory, h.length], forall_update hsockets (fun fd' s _ hs => ?_) fun s hs => ?_, ?_, ?_,
    fun fd' s script hs => hsound fd' s hs script⟩
  · rw [(hold (hlt hs)).1]
    exact h.owned fd' s hs
  · cases hs
    exact ⟨type, hnew.1⟩
  · intro c hc
    rw [hhistory, List.length_append] at hc
    rw [hlog]
    exact h.fresh c (by omega)
  · intro c fd' type' script hc hscript
    by_cases hbound : c < io.history.length
    · rw [(hold hbound).1] at hc
      rw [(hold hbound).2] at hscript
      rw [hlog]
      exact h.framed c fd' type' script hc hscript
    · have hle := (List.getElem?_eq_some_iff.1 hc).1
      rw [hhistory, List.length_append, List.length_singleton] at hle
      obtain rfl : c = io.history.length := by omega
      rw [hnone]
      exact ⟨List.nil_prefix, by simp⟩

/-- Where a turn of the read loop leaves the queue. -/
theorem log_of_queued {c : ℕ} {q : BoundedFifo (ℕ × Message) cap} {ms : List Message}
    (hqueued : (q = io.mq ∧ ms = []) ∨
      ∃ m, pushTagged c io.mq m = some q ∧ ms = [m]) :
    io.popped ++ q.items = io.log ++ ms.map fun m => (c, m) := by
  rcases hqueued with ⟨rfl, rfl⟩ | ⟨m, hpush, rfl⟩
  · rw [List.map_nil, List.append_nil, log]
  · rw [(BoundedFifo.push_eq_some_iff.1 hpush).2, log, List.append_assoc]
    rfl

/-- A turn that kept the conservation law, or after which the socket is to be removed. -/
theorem Receiving.read (h : Receiving maxPackageSize io streams) {fd : ℤ} {s : Socket sendCap}
    {r : Receiver (BoundedFifo (ℕ × Message) cap)} (hs : io.sockets fd = some s)
    (hcontrol : ∀ fd', io.control ≠ .removing fd') (hhistory : io'.history = io.history)
    (hsockets : io'.sockets = Function.update io.sockets fd
      (some { s with readmessage := r.readmessage, recvScript := r.script }))
    (hlog : io'.log = io.log ++ r.pushed.map fun m => (s.conn, m))
    (hturn : (∀ script, streams[s.conn]? = some script →
        Receiver.Sound maxPackageSize fd (streamBytes script)
          { r with pushed := packages io.log s.conn ++ r.pushed }) ∨
      (r.pushed = [] ∧ io'.control = .removing fd)) : Receiving maxPackageSize io' streams := by
  obtain ⟨type, hown⟩ := h.owned fd s hs
  have hlt := (List.getElem?_eq_some_iff.1 hown).1
  obtain ⟨script₀, hscript⟩ : ∃ script, streams[s.conn]? = some script :=
    ⟨_, List.getElem?_eq_getElem (h.length ▸ hlt)⟩
  have hpushed : ∀ m ∈ r.pushed, m.type = .protobufPackage := by
    rcases hturn with hsound | ⟨hnone, -⟩
    · exact fun m hm => ((hsound _ hscript).complete m (List.mem_append_right _ hm)).1.type_eq
    · simp [hnone]
  have hself : packages io'.log s.conn = packages io.log s.conn ++ r.pushed := by
    rw [hlog, packages_append, packages_map hpushed]
  have hothers : ∀ c ≠ s.conn, packages io'.log c = packages io.log c := fun c hc => by
    rw [hlog, packages_append, packages_map_of_ne hc.symm, List.append_nil]
  have hreceiver : ∀ fd' s', io'.sockets fd' = some s' → ∀ script, io'.control ≠ .removing fd' →
      streams[s'.conn]? = some script →
      (io'.receiver s' (packages io'.log s'.conn)).Sound maxPackageSize fd' (streamBytes script) := by
    refine forall_update hsockets (fun fd' s' hfd hs' script _ hscript' => ?_)
      fun s' hs' script hremoving hscript' => ?_
    · have hconn := conn_ne_of_owned h.owned hs hs' hfd
      exact receiver_sound (h.sound fd' s' script hs' (hcontrol fd') hscript') rfl rfl rfl
        (hothers s'.conn hconn)
    · cases hs'
      rcases hturn with hsound | ⟨-, hgone⟩
      · obtain ⟨hconserved, hcomplete, hunderway⟩ := hsound script hscript'
        rw [receiver, hself]
        exact ⟨hconserved, hcomplete, hunderway⟩
      · exact absurd hgone hremoving
  refine ⟨by rw [hhistory]; exact h.length, forall_update hsockets (fun fd' s' _ hs' => ?_) fun s' hs' => ?_,
    ?_, ?_, fun fd' s' script hs' => hreceiver fd' s' hs' script⟩
  · rw [hhistory]
    exact h.owned fd' s' hs'
  · cases hs'
    rw [hhistory]
    exact ⟨type, hown⟩
  · intro c hc
    rw [hhistory] at hc
    rw [hothers c (by omega)]
    exact h.fresh c hc
  · intro c fd' type' script hc hscript'
    rw [hhistory] at hc
    by_cases hconn : c = s.conn
    · subst hconn
      rw [hown] at hc
      cases hc
      rw [hself]
      rcases hturn with hsound | ⟨hnone, -⟩
      · exact (hsound script hscript').framed
      · rw [hnone, List.append_nil]
        exact h.framed s.conn fd type script hown hscript'
    · rw [hothers c hconn]
      exact h.framed c fd' type' script hc hscript'

theorem Receiving.turned (h : Receiving maxPackageSize io streams) {fd : ℤ} {s : Socket sendCap}
    (hs : io.sockets fd = some s) (hcontrol : io.control = .reading fd) :
    Receiving maxPackageSize (io.readTurn maxPackageSize fd s) streams := by
  have hstays : ∀ fd', io.control ≠ .removing fd' := fun fd' => by rw [hcontrol]; simp
  rcases hturn : pollReadTurn (pushTagged s.conn) maxPackageSize fd
    ⟨s.readmessage, io.mq, s.recvScript, []⟩ with ⟨e, r⟩
  obtain ⟨r', hturn', rfl, hqueued⟩ := pollReadTurn_pushed (packages io.log s.conn) hturn
  have hlog : (io.readTurn maxPackageSize fd s).log = io.log ++ r.pushed.map fun m => (s.conn, m) := by
    simp only [readTurn, hturn]
    exact log_of_queued (hqueued.imp_right fun ⟨m, _, hpush, hms⟩ => ⟨m, hpush, hms⟩)
  have hsockets : (io.readTurn maxPackageSize fd s).sockets = Function.update io.sockets fd
      (some { s with readmessage := r.readmessage, recvScript := r.script }) := by
    simp only [readTurn, hturn]
  refine h.read hs hstays rfl hsockets hlog ?_
  by_cases he : e = none ∨ e = some .wouldblock
  · exact .inl fun script hscript => ((h.sound fd s script hs (hstays fd) hscript).turn hturn').2 he
  · right
    rw [not_or] at he
    refine ⟨?_, ?_⟩
    · rcases hqueued with ⟨-, hnone⟩ | ⟨m, hnone, -⟩
      · exact hnone
      · exact absurd hnone he.1
    · obtain ⟨e, rfl⟩ := Option.ne_none_iff_exists'.1 he.1
      have hrc : e.rc = false := by simpa [PollReadEnd.rc] using he.2
      simp only [readTurn, hturn, hrc, Bool.false_eq_true, if_false]

/-- One step keeps the invariant. -/
theorem Receiving.step (h : Receiving maxPackageSize io streams) {e : IoEvent}
    (hstep : io.step maxPackageSize e = some io') :
    Receiving maxPackageSize io' (streams ++ opening io e io') := by
  cases step_receives hstep with
  | kept hhistory hlog hsockets =>
    rw [opening, if_pos (by rw [hhistory]), List.append_nil]
    exact h.kept hhistory hlog hsockets
  | opened fd type sends hhistory hlog hsockets hcontrol =>
    rw [opening, if_neg (by simp [hhistory])]
    exact h.opened hhistory hlog hsockets hcontrol
  | turned fd s hs hcontrol heq =>
    subst heq
    have hhistory : (io.readTurn maxPackageSize fd s).history = io.history := rfl
    rw [opening, hhistory, if_pos rfl, List.append_nil]
    exact h.turned hs hcontrol

end Step

/-! ### Every run -/

theorem receiving_run {es : List IoEvent} {io : IoThread cap sendCap}
    (hrun : (system cap sendCap maxPackageSize).run (new cap sendCap) es = some io) :
    Receiving maxPackageSize io (scripts cap sendCap maxPackageSize es) :=
  Machine.invariant_notes (M := system cap sendCap maxPackageSize)
    (I := fun io streams => Receiving maxPackageSize io streams) (fun _ _ _ _ h hstep => h.step hstep)
    receiving_new hrun

/-- What the worker gets of the stream of connection `c` on descriptor `fd`: packages read whole, the first
bytes of the stream; of a stream of frames, its first frames; and the socket holds the others received. -/
structure ArrivesWhole (maxPackageSize : ℕ) (io : IoThread cap sendCap) (script : List RecvAnswer) (c : ℕ)
    (fd : ℤ) : Prop where
  framed : Framed maxPackageSize fd script (packages io.popped c ++ packages io.mq.items c)
  frames : ∀ frames : List (List Byte), (∀ f ∈ frames, Frame maxPackageSize f) →
    streamBytes script = frames.flatten →
    packages io.popped c ++ packages io.mq.items c <+: frames.map (frameMessage fd)
  conserved : ∀ s, io.sockets fd = some s → s.conn = c → io.control ≠ .removing fd →
    streamBytes script = (packages io.popped c ++ packages io.mq.items c).flatMap Message.buf ++
      receivedPart s ++ streamBytes s.recvScript

/-- **Packages arrive whole.** In every run of the two threads, whatever else happens on other
descriptors, on this one before and after, and to the queue. -/
theorem packages_delivered {es : List IoEvent} {io : IoThread cap sendCap}
    (hrun : (system cap sendCap maxPackageSize).run (new cap sendCap) es = some io) (c : ℕ) (fd : ℤ)
    (type : SocketType) (hc : io.history[c]? = some (fd, type)) :
    ∃ script, (scripts cap sendCap maxPackageSize es)[c]? = some script ∧
      io.ArrivesWhole maxPackageSize script c fd := by
  have h := receiving_run hrun
  have hlt := (List.getElem?_eq_some_iff.1 hc).1
  obtain ⟨script, hscript⟩ : ∃ script, (scripts cap sendCap maxPackageSize es)[c]? = some script :=
    ⟨_, List.getElem?_eq_getElem (h.length ▸ hlt)⟩
  have hframed := h.framed c fd type script hc hscript
  rw [log, packages_append] at hframed
  refine ⟨script, hscript, hframed, fun frames hframes hstream => hframed.frames hframes hstream, ?_⟩
  rintro s hs rfl hcontrol
  have hconserved := (h.sound fd s script hs hcontrol hscript).conserved
  rw [log, packages_append] at hconserved
  rw [hconserved, receivedPart, receiver, Receiver.pending]
  cases s.readmessage <;> rfl

/-- A frame of twenty bytes. -/
def twenty (b : Byte) : List Byte := 20 :: 0 :: 0 :: 0 :: List.replicate 16 b

/-- A connection on descriptor 7 sends a frame in two pieces, with one on descriptor 9 in between; then
its peer closes, and the next connection on descriptor 7 sends half a frame. -/
def interleaved : List IoEvent :=
  [.newServer 3 true, .pollIn 3, .accept 7 true [.data 20 ((twenty 1).tail.take 9), .eagain, .eagain,
      .data 1 ((twenty 1).drop 11), .eof] [], .accept 9 true [.data 20 (twenty 2).tail, .eagain] [],
    .acceptDone, .pop, .pollIn 7, .turn, .turn, .handled, .pop, .pollIn 9, .turn, .turn, .turn, .handled,
    .pollIn 7, .turn, .turn, .turn, .turn, .pop, .pollIn 3,
    .accept 7 true [.data 20 ((twenty 3).tail.take 9)] [], .acceptDone, .pollIn 7, .turn]

/-- The state they lead to. -/
def interleavedState : IoThread 9 1 :=
  ((system 9 1 100).run (new 9 1) interleaved).getD (new 9 1)

theorem packages_delivered_interleaved :
    interleavedState.history = [(3, .server), (7, .connection), (9, .connection), (7, .connection)] ∧
      ((interleavedState.sockets 7).map fun s => (s.conn, (receivedPart s).length)) = some (3, 10) ∧
      ((packages interleavedState.popped 1).length, (packages interleavedState.mq.items 1).length,
        (packages interleavedState.popped 2).length) = (0, 1, 1) ∧
      (∃ script, (scripts 9 1 100 interleaved)[1]? = some script ∧
        interleavedState.ArrivesWhole 100 script 1 7) ∧
      ∃ script, (scripts 9 1 100 interleaved)[3]? = some script ∧
        interleavedState.ArrivesWhole 100 script 3 7 := by
  have hsome : ((system 9 1 100).run (new 9 1) interleaved).isSome := by decide +kernel
  have hrun : (system 9 1 100).run (new 9 1) interleaved = some interleavedState := by
    rw [interleavedState]
    exact Machine.run_eq_getD hsome _
  have hhistory : interleavedState.history =
      [(3, .server), (7, .connection), (9, .connection), (7, .connection)] := by decide +kernel
  exact ⟨hhistory, by decide +kernel, by decide +kernel,
    packages_delivered hrun 1 7 .connection (by rw [hhistory]; rfl),
    packages_delivered hrun 3 7 .connection (by rw [hhistory]; rfl)⟩

end IoThread
end Slam
