import Slam.Lib.Machine
import Slam.Io.Receive
import Slam.Io.Send

/-!
# `io/slam_io_thread.c`: the io thread and the worker that drains its queue

The io thread owns the table of sockets, indexed by descriptor. It accepts connections, reads
packages, writes responses and removes broken sockets, and it tells the worker about all of this
through one bounded queue. The worker pops a message at a time and may answer while it handles it.

The two run side by side. A step is what one thread does between two points where the other can
come in: one accepted connection, one turn of the read or write loop, one removal, one message
popped, one response. `IoControl` is the place where the io thread stands; an event carries what the
kernel decides (descriptors, results of `epoll_ctl`, and for each connection all later answers of
`recv` and `send`).

Descriptors are reused, so every socket and every queued message carries, as a ghost, the serial
number of the connection it belongs to.
-/

namespace Slam

/-- The `SOCKET_*` constants a socket in the table can have. -/
inductive SocketType
  | server
  | client
  | connection
  deriving DecidableEq

/-- `slam_socket_s`, with the answers of its later system calls and its serial number `conn`. -/
structure Socket (sendCap : ℕ) where
  conn : ℕ
  type : SocketType
  readmessage : Option Message
  recvScript : List RecvAnswer
  sender : Sender sendCap

/-- `slam_socket_newfd`. -/
def Socket.new {sendCap : ℕ} (conn : ℕ) (type : SocketType) (recvs : List RecvAnswer)
    (sends : List SendAnswer) : Socket sendCap :=
  ⟨conn, type, none, recvs, Sender.new sendCap sends⟩

/-- `slam_socket_write_message`. -/
def Socket.writeMessage {sendCap : ℕ} (s : Socket sendCap) (m : Message) : Bool × Socket sendCap :=
  ((s.sender.writeMessage m).1, { s with sender := (s.sender.writeMessage m).2 })

/-- Where the io thread stands in `slam_io_thread_do_message`. -/
inductive IoControl
  | idle
  | accepting (fd : ℤ)
  | reading (fd : ℤ)
  | writing (fd : ℤ)
  | removing (fd : ℤ)
  deriving DecidableEq

/-- The io thread and the worker. `history` lists the sockets ever put into the table, by serial
number; `popped` is what the worker has popped, `handling` what it has not finished with. -/
structure IoThread (cap sendCap : ℕ) where
  sockets : ℤ → Option (Socket sendCap)
  mq : BoundedFifo (ℕ × Message) cap
  control : IoControl
  history : List (ℤ × SocketType)
  popped : List (ℕ × Message)
  handling : Option (ℕ × Message)
  aborted : Bool

/-- A step of one of the threads, with what the kernel decides. -/
inductive IoEvent
  | pollError (fd : ℤ)
  | pollIn (fd : ℤ)
  | pollOut (fd : ℤ)
  | accept (fd : ℤ) (pollAdd : Bool) (recvs : List RecvAnswer) (sends : List SendAnswer)
  | acceptDone
  | turn
  | pop
  | respond (fd msgid : ℤ) (payload : List Byte) (pollout : Bool)
  | handled
  | newServer (fd : ℤ) (pollAdd : Bool)
  | newClient (fd : ℤ) (pollAdd : Bool) (recvs : List RecvAnswer) (sends : List SendAnswer)

namespace IoThread

variable {cap sendCap : ℕ}

/-- `slam_io_thread_new`. -/
def new (cap sendCap : ℕ) : IoThread cap sendCap :=
  ⟨fun _ => none, BoundedFifo.empty _ cap, .idle, [], [], none, false⟩

/-- A failed `assert`. -/
def abort (io : IoThread cap sendCap) : IoThread cap sendCap := { io with aborted := true }

/-- Allocate an event message for the connection `conn` and push it; a message that the queue
refuses is deleted. -/
def pushEvent (io : IoThread cap sendCap) (type : MessageType) (conn : ℕ) (fd : ℤ) :
    Bool × IoThread cap sendCap :=
  match io.mq.push (conn, Message.new fd type 0) with
  | none => (false, io)
  | some q => (true, { io with mq := q })

/-- `slam_io_thread_establish_connection_event`. -/
def establishConnectionEvent (io : IoThread cap sendCap) (conn : ℕ) (fd : ℤ) :
    Bool × IoThread cap sendCap :=
  io.pushEvent .establishConnection conn fd

/-- `slam_io_thread_lost_connection_event`. -/
def lostConnectionEvent (io : IoThread cap sendCap) (conn : ℕ) (fd : ℤ) :
    Bool × IoThread cap sendCap :=
  io.pushEvent .lostConnection conn fd

/-- `slam_io_thread_add_socket`; `none` is a failed assertion. -/
def addSocket (io : IoThread cap sendCap) (fd : ℤ) (type : SocketType) (recvs : List RecvAnswer)
    (sends : List SendAnswer) (pollAdd : Bool) : Option (Bool × IoThread cap sendCap) :=
  if ¬ ValidSocket fd then none
  else if io.sockets fd ≠ none then none
  else if pollAdd = false then some (false, io)
  else some (true, { io with
    sockets := Function.update io.sockets fd (some (Socket.new io.history.length type recvs sends))
    history := io.history ++ [(fd, type)] })

/-- `slam_io_thread_remove_socket`; `none` is a failed assertion. The result of pushing the event is
not looked at. -/
def removeSocket (io : IoThread cap sendCap) (fd : ℤ) : Option (IoThread cap sendCap) :=
  if ¬ ValidSocket fd then none
  else
    match io.sockets fd with
    | none => some io
    | some s =>
      some (({ io with sockets := Function.update io.sockets fd none }).lostConnectionEvent s.conn fd).2

/-- A connection comes out of `slam_socket_accept`, in `slam_io_thread_accept_socket`. The result of
pushing the event is not looked at. -/
def acceptSocket (io : IoThread cap sendCap) (fd : ℤ) (recvs : List RecvAnswer)
    (sends : List SendAnswer) (pollAdd : Bool) : IoThread cap sendCap :=
  match io.addSocket fd .connection recvs sends pollAdd with
  | none => io.abort
  | some (false, io') => io'
  | some (true, io') => (io'.establishConnectionEvent io.history.length fd).2

/-- The dispatch of `slam_io_thread_read_socket`. -/
def readSocket (io : IoThread cap sendCap) (fd : ℤ) : IoThread cap sendCap :=
  if ¬ ValidSocket fd then io.abort
  else
    match io.sockets fd with
    | none => io
    | some s =>
      if s.type = .server then { io with control := .accepting fd }
      else { io with control := .reading fd }

/-- The dispatch of `slam_io_thread_write_socket`. -/
def writeSocket (io : IoThread cap sendCap) (fd : ℤ) : IoThread cap sendCap :=
  if ¬ ValidSocket fd then io.abort
  else
    match io.sockets fd with
    | none => io
    | some s => if s.type = .server then io.abort else { io with control := .writing fd }

/-- The messages of connection `conn` enter the shared queue under its number. -/
def pushTagged (conn : ℕ) (q : BoundedFifo (ℕ × Message) cap) (m : Message) :
    Option (BoundedFifo (ℕ × Message) cap) :=
  q.push (conn, m)

/-- One turn of `slam_socket_poll_read` on the socket `s` at `fd`. -/
def readTurn (maxPackageSize : ℕ) (io : IoThread cap sendCap) (fd : ℤ) (s : Socket sendCap) :
    IoThread cap sendCap :=
  match pollReadTurn (pushTagged s.conn) maxPackageSize fd ⟨s.readmessage, io.mq, s.recvScript, []⟩ with
  | (e, r) =>
    { io with
      mq := r.readmq
      sockets := Function.update io.sockets fd
        (some { s with readmessage := r.readmessage, recvScript := r.script })
      control :=
        match e with
        | none => .reading fd
        | some e => if e.rc then .idle else .removing fd
      aborted := e = some .aborted }

/-- One turn of `slam_socket_poll_write` on the socket `s` at `fd`. -/
def writeTurn (io : IoThread cap sendCap) (fd : ℤ) (s : Socket sendCap) : IoThread cap sendCap :=
  match s.sender.pollWriteTurn with
  | (e, sender') =>
    { io with
      sockets := Function.update io.sockets fd (some { s with sender := sender' })
      control :=
        match e with
        | none => .writing fd
        | some e => if e.rc then .idle else .removing fd
      aborted := e = some .aborted }

/-- The io thread goes on with the loop it is in. -/
def ioTurn (maxPackageSize : ℕ) (io : IoThread cap sendCap) : Option (IoThread cap sendCap) :=
  match io.control with
  | .idle | .accepting _ => none
  | .reading fd => (io.sockets fd).map (io.readTurn maxPackageSize fd)
  | .writing fd => (io.sockets fd).map (io.writeTurn fd)
  | .removing fd =>
    match io.removeSocket fd with
    | none => some io.abort
    | some io' => some { io' with control := .idle }

/-- `slam_message_queue_pop_front` in `slam_runnable_do_message`. -/
def popMessage (io : IoThread cap sendCap) : Option (IoThread cap sendCap) :=
  match io.handling, io.mq.pop with
  | none, some (x, q) =>
    some { io with mq := q, popped := io.popped ++ [x], handling := some x }
  | _, _ => none

/-- The worker puts a socket of its own into the table: `slam_io_newserver`, `slam_io_newclient`. -/
def newSocket (io : IoThread cap sendCap) (fd : ℤ) (type : SocketType) (recvs : List RecvAnswer)
    (sends : List SendAnswer) (pollAdd : Bool) : IoThread cap sendCap :=
  match io.addSocket fd type recvs sends pollAdd with
  | none => io.abort
  | some (_, io') => io'

/-- One step; `none` when it cannot be taken. -/
def step (maxPackageSize : ℕ) (io : IoThread cap sendCap) (e : IoEvent) :
    Option (IoThread cap sendCap) :=
  if io.aborted then none
  else
    match e with
    | .pollError fd =>
      if io.control = .idle then
        match io.removeSocket fd with
        | none => some io.abort
        | some io' => some io'
      else none
    | .pollIn fd => if io.control = .idle then some (io.readSocket fd) else none
    | .pollOut fd => if io.control = .idle then some (io.writeSocket fd) else none
    | .accept fd pollAdd recvs sends =>
      match io.control with
      | .accepting _ => some (io.acceptSocket fd recvs sends pollAdd)
      | _ => none
    | .acceptDone =>
      match io.control with
      | .accepting _ => some { io with control := .idle }
      | _ => none
    | .turn => io.ioTurn maxPackageSize
    | .pop => io.popMessage
    | .respond fd msgid payload pollout =>
      some { io with
        sockets :=
          (ioResponse Socket.writeMessage io.sockets (encodedMessage fd msgid payload) pollout).2 }
    | .handled => if io.handling = none then none else some { io with handling := none }
    | .newServer fd pollAdd => some (io.newSocket fd .server [] [] pollAdd)
    | .newClient fd pollAdd recvs sends => some (io.newSocket fd .client recvs sends pollAdd)

/-- The system of the two threads. -/
def system (cap sendCap maxPackageSize : ℕ) : Machine (IoThread cap sendCap) IoEvent where
  step := step maxPackageSize

/-! ### What a step does to connections and messages -/

/-- The connection that owns a descriptor. -/
def owner (io : IoThread cap sendCap) (fd : ℤ) : Option (ℕ × SocketType) :=
  (io.sockets fd).map fun s => (s.conn, s.type)

/-- The messages that entered the shared queue, in order; the worker has popped a prefix of them. -/
def log (io : IoThread cap sendCap) : List (ℕ × Message) := io.popped ++ io.mq.items

/-- The messages the worker has not finished with. -/
def pending (io : IoThread cap sendCap) : List (ℕ × Message) := io.handling.toList ++ io.mq.items

/-- A package under construction carries the descriptor it is read from. -/
def Tagged (io : IoThread cap sendCap) : Prop :=
  ∀ fd s m, io.sockets fd = some s → s.readmessage = some m →
    m.fd = fd ∧ m.type = .protobufPackage

/-- The event makes the io thread push an `ESTABLISH_CONNECTION` or a `LOST_CONNECTION`. -/
def PushesEvent (io : IoThread cap sendCap) : IoEvent → Prop
  | .accept fd pollAdd _ _ => ValidSocket fd ∧ io.sockets fd = none ∧ pollAdd = true
  | .pollError fd => io.sockets fd ≠ none
  | .turn =>
    match io.control with
    | .removing fd => io.sockets fd ≠ none
    | _ => False
  | _ => False

/-- The event puts a socket into the table at `fd`. -/
def Opens (io : IoThread cap sendCap) (fd : ℤ) : IoEvent → Prop
  | .accept fd' pollAdd _ _ => fd' = fd ∧ io.sockets fd = none ∧ pollAdd = true
  | .newServer fd' pollAdd => fd' = fd ∧ io.sockets fd = none ∧ pollAdd = true
  | .newClient fd' pollAdd _ _ => fd' = fd ∧ io.sockets fd = none ∧ pollAdd = true
  | _ => False

/-- The messages `xs` were appended to the queue. -/
structure Appends (io io' : IoThread cap sendCap) (xs : List (ℕ × Message)) : Prop where
  log : io'.log = io.log ++ xs
  pending : io'.pending = io.pending ++ xs

/-- Everything a step can do to the owners of descriptors and to the messages on their way. An event
that the queue has no room for is lost. -/
inductive Effect (io : IoThread cap sendCap) (e : IoEvent) (io' : IoThread cap sendCap) : Prop
  | quiet (howner : io'.owner = io.owner) (hhistory : io'.history = io.history)
      (hlog : io'.log = io.log) (hpending : io'.pending.Sublist io.pending)
  | opened (fd : ℤ) (type : SocketType) (xs : List (ℕ × Message)) (hopens : io.Opens fd e)
      (hfree : io.owner fd = none)
      (howner : io'.owner = Function.update io.owner fd (some (io.history.length, type)))
      (hhistory : io'.history = io.history ++ [(fd, type)]) (happ : io.Appends io' xs)
      (hxs : (type ≠ .connection ∧ xs = []) ∨
        (type = .connection ∧
          xs = [(io.history.length, Message.new fd .establishConnection 0)]) ∨
        (xs = [] ∧ io.mq.items.length = cap ∧ io.PushesEvent e))
  | package (fd : ℤ) (conn : ℕ) (type : SocketType) (m : Message)
      (hown : io.owner fd = some (conn, type)) (hm : m.fd = fd ∧ m.type = .protobufPackage)
      (howner : io'.owner = io.owner) (hhistory : io'.history = io.history)
      (happ : io.Appends io' [(conn, m)])
  | removed (fd : ℤ) (conn : ℕ) (type : SocketType) (xs : List (ℕ × Message))
      (hown : io.owner fd = some (conn, type))
      (howner : io'.owner = Function.update io.owner fd none) (hhistory : io'.history = io.history)
      (happ : io.Appends io' xs)
      (hxs : xs = [(conn, Message.new fd .lostConnection 0)] ∨
        (xs = [] ∧ io.mq.items.length = cap ∧ io.PushesEvent e))

theorem owner_update (io : IoThread cap sendCap) (fd : ℤ) (s : Option (Socket sendCap))
    {io' : IoThread cap sendCap} (h : io'.sockets = Function.update io.sockets fd s) :
    io'.owner = Function.update io.owner fd (s.map fun s => (s.conn, s.type)) := by
  funext fd'
  rw [owner, h]
  by_cases heq : fd' = fd
  · subst heq
    rw [Function.update_self, Function.update_self]
  · rw [Function.update_of_ne heq, Function.update_of_ne heq, owner]

/-- Changing a socket but not whose it is. -/
theorem owner_update_same {io io' : IoThread cap sendCap} {fd : ℤ} {s s' : Socket sendCap}
    (hs : io.sockets fd = some s) (h : io'.sockets = Function.update io.sockets fd (some s'))
    (hconn : s'.conn = s.conn) (htype : s'.type = s.type) : io'.owner = io.owner := by
  rw [owner_update io fd _ h, Option.map_some, hconn, htype, Function.update_eq_self_iff, owner, hs,
    Option.map_some]

/-- A push that succeeds, in terms of the two views of the queue. -/
theorem appends_of_push {io io' : IoThread cap sendCap} {x : ℕ × Message}
    {q : BoundedFifo (ℕ × Message) cap} (hpush : io.mq.push x = some q) (hmq : io'.mq = q)
    (hpopped : io'.popped = io.popped) (hhandling : io'.handling = io.handling) :
    io.Appends io' [x] := by
  have hitems := (BoundedFifo.push_eq_some_iff.1 hpush).2
  constructor
  · rw [log, log, hpopped, hmq, hitems, List.append_assoc]
  · rw [pending, pending, hhandling, hmq, hitems, List.append_assoc]

theorem appends_nil {io io' : IoThread cap sendCap} (hmq : io'.mq = io.mq)
    (hpopped : io'.popped = io.popped) (hhandling : io'.handling = io.handling) :
    io.Appends io' [] := by
  constructor
  · rw [log, log, hpopped, hmq, List.append_nil]
  · rw [pending, pending, hhandling, hmq, List.append_nil]

/-- A step that leaves the owners, the history and the messages alone. -/
theorem effect_quiet {io io' : IoThread cap sendCap} {e : IoEvent} (howner : io'.owner = io.owner)
    (hhistory : io'.history = io.history) (hmq : io'.mq = io.mq)
    (hpopped : io'.popped = io.popped) (hhandling : io'.handling = io.handling) :
    io.Effect e io' :=
  .quiet howner hhistory (by rw [log, log, hpopped, hmq])
    (by rw [pending, pending, hhandling, hmq])

/-! ### One lemma per operation -/

/-- The message is a package read from `fd`. -/
def Packaged (fd : ℤ) (m : Message) : Prop := m.fd = fd ∧ m.type = .protobufPackage

theorem pollReadBody_packaged {Q : Type*} (pushBack : Q → Message → Option Q) {fd : ℤ} {m : Message}
    {r : Receiver Q} (hr : r.readmessage = some m) (hm : Packaged fd m) :
    ((pollReadBody pushBack m r).2.readmq = r.readmq ∨
      ∃ m', Packaged fd m' ∧ pushBack r.readmq m' = some (pollReadBody pushBack m r).2.readmq) ∧
    ∀ m', (pollReadBody pushBack m r).2.readmessage = some m' → Packaged fd m' := by
  have hsame : ∀ m', r.readmessage = some m' → Packaged fd m' := by
    rintro m' h
    rw [hr] at h
    cases h
    exact hm
  rcases pollReadBody_cases pushBack m r with ⟨-, he⟩ | ⟨-, -, he⟩ | ⟨q, -, hpush, he⟩ |
    ⟨s', -, -, he⟩ | ⟨s', -, -, he⟩ | ⟨bytes, s', -, -, -, -, he⟩ <;> rw [he]
  · exact ⟨.inl rfl, hsame⟩
  · exact ⟨.inl rfl, hsame⟩
  · exact ⟨.inr ⟨m, hm, hpush⟩, nofun⟩
  · exact ⟨.inl rfl, hsame⟩
  · exact ⟨.inl rfl, hsame⟩
  · refine ⟨.inl rfl, ?_⟩
    rintro m' ⟨rfl⟩
    exact hm

/-- A turn of the read loop pushes at most one message, a package with the descriptor it was read
from. -/
theorem pollReadTurn_packaged {Q : Type*} (pushBack : Q → Message → Option Q) (maxPackageSize : ℕ)
    {fd : ℤ} {r : Receiver Q} (hr : ∀ m, r.readmessage = some m → Packaged fd m) :
    ((pollReadTurn pushBack maxPackageSize fd r).2.readmq = r.readmq ∨
      ∃ m, Packaged fd m ∧
        pushBack r.readmq m = some (pollReadTurn pushBack maxPackageSize fd r).2.readmq) ∧
    ∀ m, (pollReadTurn pushBack maxPackageSize fd r).2.readmessage = some m → Packaged fd m := by
  unfold pollReadTurn
  rcases hm : r.readmessage with _ | m
  · rcases pollReadLen_cases maxPackageSize fd r.script with ⟨_, _, he⟩ | ⟨_, _, he⟩ |
      ⟨_, _, _, _, _, he⟩ | ⟨_, _, _, _, _, he⟩ | ⟨_, _, _, _, _, he⟩ |
      ⟨len, s', _, _, _, _, he⟩ <;> simp only [he]
    case inr.inr.inr.inr.inr =>
      exact pollReadBody_packaged pushBack
        (r := { r with
          readmessage := some ((Message.new fd .protobufPackage (leValue len)).receive len)
          script := s' }) rfl ⟨rfl, rfl⟩
    all_goals exact ⟨.inl trivial, nofun⟩
  · exact pollReadBody_packaged pushBack hm (hr m hm)

theorem Tagged.update {io io' : IoThread cap sendCap} (h : io.Tagged) {fd : ℤ}
    {s : Option (Socket sendCap)} (hs : io'.sockets = Function.update io.sockets fd s)
    (hm : ∀ s' m, s = some s' → s'.readmessage = some m → Packaged fd m) : io'.Tagged := by
  intro fd' s' m hs' hm'
  rw [hs] at hs'
  by_cases heq : fd' = fd
  · subst heq
    rw [Function.update_self] at hs'
    exact hm s' m hs' hm'
  · rw [Function.update_of_ne heq] at hs'
    exact h fd' s' m hs' hm'

theorem pushEvent_cases (io : IoThread cap sendCap) (type : MessageType) (conn : ℕ) (fd : ℤ) :
    (io.mq.items.length = cap ∧ (io.pushEvent type conn fd).2 = io) ∨
    (∃ q, io.mq.push (conn, Message.new fd type 0) = some q ∧
      (io.pushEvent type conn fd).2 = { io with mq := q }) := by
  unfold pushEvent
  rcases hpush : io.mq.push (conn, Message.new fd type 0) with _ | q
  · exact .inl ⟨BoundedFifo.push_eq_none_iff.1 hpush, rfl⟩
  · exact .inr ⟨q, rfl, rfl⟩

theorem addSocket_of_free {io : IoThread cap sendCap} {fd : ℤ} (hvalid : ValidSocket fd)
    (hfree : io.sockets fd = none) (type : SocketType) (recvs : List RecvAnswer)
    (sends : List SendAnswer) :
    io.addSocket fd type recvs sends true = some (true, { io with
      sockets := Function.update io.sockets fd (some (Socket.new io.history.length type recvs sends))
      history := io.history ++ [(fd, type)] }) := by
  simp [addSocket, hvalid, hfree]

theorem addSocket_cases (io : IoThread cap sendCap) (fd : ℤ) (type : SocketType)
    (recvs : List RecvAnswer) (sends : List SendAnswer) (pollAdd : Bool) :
    io.addSocket fd type recvs sends pollAdd = none ∨
    io.addSocket fd type recvs sends pollAdd = some (false, io) ∨
    (ValidSocket fd ∧ io.sockets fd = none ∧ pollAdd = true ∧
      io.addSocket fd type recvs sends pollAdd = some (true, { io with
        sockets :=
          Function.update io.sockets fd (some (Socket.new io.history.length type recvs sends))
        history := io.history ++ [(fd, type)] })) := by
  by_cases hvalid : ValidSocket fd
  · by_cases hfree : io.sockets fd = none
    · cases pollAdd with
      | false => exact .inr (.inl (by simp [addSocket, hvalid, hfree]))
      | true => exact .inr (.inr ⟨hvalid, hfree, rfl, addSocket_of_free hvalid hfree type recvs sends⟩)
    · exact .inl (by simp [addSocket, hfree])
  · exact .inl (by simp [addSocket, hvalid])

theorem removeSocket_effect {io io' : IoThread cap sendCap} {fd : ℤ} {e : IoEvent}
    (ht : io.Tagged) (hpush : io.sockets fd ≠ none → io.PushesEvent e)
    (h : io.removeSocket fd = some io') : io.Effect e io' ∧ io'.Tagged := by
  unfold removeSocket at h
  by_cases hvalid : ValidSocket fd
  · rw [if_neg (not_not.2 hvalid)] at h
    rcases hs : io.sockets fd with _ | s
    · rw [hs] at h
      cases h
      exact ⟨effect_quiet rfl rfl rfl rfl rfl, ht⟩
    · rw [hs] at h
      have hown : io.owner fd = some (s.conn, s.type) := by rw [owner, hs]; rfl
      rcases pushEvent_cases { io with sockets := Function.update io.sockets fd none }
        .lostConnection s.conn fd with ⟨hfull, he⟩ | ⟨q, hq, he⟩
      · simp only [lostConnectionEvent, he] at h
        cases h
        refine ⟨.removed fd s.conn s.type [] hown (owner_update io fd none rfl) rfl
          (appends_nil rfl rfl rfl) (.inr ⟨rfl, hfull, hpush (by simp [hs])⟩),
          ht.update (s := none) rfl nofun⟩
      · simp only [lostConnectionEvent, he] at h
        cases h
        refine ⟨.removed fd s.conn s.type _ hown (owner_update io fd none rfl) rfl
          (appends_of_push hq rfl rfl rfl) (.inl rfl), ht.update (s := none) rfl nofun⟩
  · rw [if_pos hvalid] at h
    cases h

theorem acceptSocket_of_free {io : IoThread cap sendCap} {fd : ℤ} (hvalid : ValidSocket fd)
    (hfree : io.sockets fd = none) (recvs : List RecvAnswer) (sends : List SendAnswer) :
    io.acceptSocket fd recvs sends true = (pushEvent { io with
      sockets := Function.update io.sockets fd
        (some (Socket.new io.history.length .connection recvs sends))
      history := io.history ++ [(fd, .connection)] } .establishConnection io.history.length fd).2 := by
  rw [acceptSocket, addSocket_of_free hvalid hfree]
  rfl

theorem acceptSocket_effect {io : IoThread cap sendCap} (ht : io.Tagged) (fd : ℤ) (pollAdd : Bool)
    (recvs : List RecvAnswer) (sends : List SendAnswer) :
    io.Effect (.accept fd pollAdd recvs sends) (io.acceptSocket fd recvs sends pollAdd) ∧
      (io.acceptSocket fd recvs sends pollAdd).Tagged := by
  unfold acceptSocket
  rcases addSocket_cases io fd .connection recvs sends pollAdd with he | he |
    ⟨hvalid, hfree, hadd, he⟩ <;> simp only [he]
  · exact ⟨effect_quiet rfl rfl rfl rfl rfl, ht⟩
  · exact ⟨effect_quiet rfl rfl rfl rfl rfl, ht⟩
  · have hown : io.owner fd = none := by rw [owner, hfree]; rfl
    have hupd := @owner_update _ _ io fd
      (some (Socket.new io.history.length .connection recvs sends))
    -- The socket stays in the table even when the event finds the queue full.
    rcases pushEvent_cases { io with
        sockets := Function.update io.sockets fd
          (some (Socket.new io.history.length .connection recvs sends))
        history := io.history ++ [(fd, .connection)] }
      .establishConnection io.history.length fd with ⟨hfull, hev⟩ | ⟨q, hq, hev⟩ <;>
      simp only [establishConnectionEvent, hev]
    · exact ⟨.opened fd .connection [] ⟨rfl, hfree, hadd⟩ hown (hupd rfl) rfl
        (appends_nil rfl rfl rfl) (.inr (.inr ⟨rfl, hfull, hvalid, hfree, hadd⟩)),
        ht.update rfl (by rintro _ m ⟨rfl⟩ ⟨⟩)⟩
    · exact ⟨.opened fd .connection _ ⟨rfl, hfree, hadd⟩ hown (hupd rfl) rfl
        (appends_of_push hq rfl rfl rfl) (.inr (.inl ⟨rfl, rfl⟩)),
        ht.update rfl (by rintro _ m ⟨rfl⟩ ⟨⟩)⟩

theorem newSocket_effect {io : IoThread cap sendCap} (ht : io.Tagged) {fd : ℤ} {type : SocketType}
    {recvs : List RecvAnswer} {sends : List SendAnswer} {pollAdd : Bool} {e : IoEvent}
    (htype : type ≠ .connection) (hopens : io.sockets fd = none → pollAdd = true → io.Opens fd e) :
    io.Effect e (io.newSocket fd type recvs sends pollAdd) ∧
      (io.newSocket fd type recvs sends pollAdd).Tagged := by
  unfold newSocket
  rcases addSocket_cases io fd type recvs sends pollAdd with he | he |
    ⟨-, hfree, hadd, he⟩ <;> simp only [he]
  · exact ⟨effect_quiet rfl rfl rfl rfl rfl, ht⟩
  · exact ⟨effect_quiet rfl rfl rfl rfl rfl, ht⟩
  · exact ⟨.opened fd type [] (hopens hfree hadd) (by rw [owner, hfree]; rfl)
      (owner_update io fd (some (Socket.new io.history.length type recvs sends)) rfl) rfl
      (appends_nil rfl rfl rfl) (.inl ⟨htype, rfl⟩),
      ht.update rfl (by rintro _ m ⟨rfl⟩ ⟨⟩)⟩

theorem readTurn_effect {io : IoThread cap sendCap} (ht : io.Tagged) (maxPackageSize : ℕ) {fd : ℤ}
    {s : Socket sendCap} (hs : io.sockets fd = some s) (e : IoEvent) :
    io.Effect e (io.readTurn maxPackageSize fd s) ∧
      (io.readTurn maxPackageSize fd s).Tagged := by
  obtain ⟨hmq, hmsg⟩ := pollReadTurn_packaged (pushTagged s.conn) maxPackageSize
    (r := ⟨s.readmessage, io.mq, s.recvScript, []⟩) fun m hm => ht fd s m hs hm
  have hown : io.owner fd = some (s.conn, s.type) := by rw [owner, hs]; rfl
  have hsame : (io.readTurn maxPackageSize fd s).owner = io.owner :=
    owner_update_same hs rfl rfl rfl
  refine ⟨?_, ht.update rfl ?_⟩
  · rcases hmq with hmq | ⟨m, hm, hmq⟩
    · exact effect_quiet hsame rfl hmq rfl rfl
    · exact .package fd s.conn s.type m hown hm hsame rfl (appends_of_push hmq rfl rfl rfl)
  · rintro _ m ⟨rfl⟩ hm
    exact hmsg m hm

theorem writeTurn_effect {io : IoThread cap sendCap} (ht : io.Tagged) {fd : ℤ} {s : Socket sendCap}
    (hs : io.sockets fd = some s) (e : IoEvent) :
    io.Effect e (io.writeTurn fd s) ∧ (io.writeTurn fd s).Tagged :=
  ⟨effect_quiet (owner_update_same hs rfl rfl rfl) rfl rfl rfl rfl,
    ht.update rfl (by rintro _ m ⟨rfl⟩ hm; exact ht fd s m hs hm)⟩

/-- What `slam_io_response` can do to the table: append to the send queue of the socket that owns
the descriptor. -/
theorem ioResponse_cases (sockets : ℤ → Option (Socket sendCap)) (m : Message) (pollout : Bool) :
    (ioResponse Socket.writeMessage sockets m pollout).2 = sockets ∨
    ∃ s sender', sockets m.fd = some s ∧ (ioResponse Socket.writeMessage sockets m pollout).2 =
      Function.update sockets m.fd (some { s with sender := sender' }) := by
  unfold ioResponse
  by_cases hvalid : ValidSocket m.fd
  · rw [if_neg (not_not.2 hvalid)]
    rcases hs : sockets m.fd with _ | s
    · exact .inl rfl
    · rcases hw : s.writeMessage { m with bytesize := 0 } with ⟨_ | _, s'⟩
      · exact .inl (by simp only [hw])
      · refine .inr ⟨s, s'.sender, rfl, ?_⟩
        have hs' : (s.writeMessage { m with bytesize := 0 }).2 = s' := congrArg Prod.snd hw
        simp only [hw]
        rw [← hs']
        rfl
  · exact .inl (by rw [if_pos hvalid])

theorem respond_effect {io : IoThread cap sendCap} (ht : io.Tagged) (m : Message) (pollout : Bool)
    (e : IoEvent) :
    io.Effect e { io with sockets := (ioResponse Socket.writeMessage io.sockets m pollout).2 } ∧
      Tagged { io with sockets := (ioResponse Socket.writeMessage io.sockets m pollout).2 } := by
  rcases ioResponse_cases io.sockets m pollout with he | ⟨s, sender', hs, he⟩ <;> rw [he]
  · exact ⟨effect_quiet rfl rfl rfl rfl rfl, ht⟩
  · exact ⟨effect_quiet (owner_update_same hs rfl rfl rfl) rfl rfl rfl rfl,
      ht.update rfl (by rintro _ m' ⟨rfl⟩ hm'; exact ht m.fd s m' hs hm')⟩

theorem ioTurn_effect {io io' : IoThread cap sendCap} (ht : io.Tagged) {maxPackageSize : ℕ}
    (h : io.ioTurn maxPackageSize = some io') : io.Effect .turn io' ∧ io'.Tagged := by
  unfold ioTurn at h
  split at h
  · cases h
  · cases h
  · rename_i fd _
    obtain ⟨s, hs, rfl⟩ := Option.map_eq_some_iff.1 h
    exact readTurn_effect ht maxPackageSize hs _
  · rename_i fd _
    obtain ⟨s, hs, rfl⟩ := Option.map_eq_some_iff.1 h
    exact writeTurn_effect ht hs _
  · rename_i fd hcontrol
    rcases hrem : io.removeSocket fd with _ | io₁ <;> rw [hrem] at h <;> cases h
    · exact ⟨effect_quiet rfl rfl rfl rfl rfl, ht⟩
    · obtain ⟨heffect, htag⟩ := removeSocket_effect (e := .turn) ht
        (fun hs => by simpa only [PushesEvent, hcontrol] using hs) hrem
      refine ⟨?_, htag⟩
      -- Going back to `idle` changes neither owners nor messages, so the effect is the same one.
      cases heffect with
      | quiet howner hhistory hlog hpending => exact .quiet howner hhistory hlog hpending
      | opened fd' type xs hopens => exact hopens.elim
      | package fd' conn type m hown hm howner hhistory happ =>
        exact .package fd' conn type m hown hm howner hhistory ⟨happ.log, happ.pending⟩
      | removed fd' conn type xs hown howner hhistory happ hxs =>
        exact .removed fd' conn type xs hown howner hhistory ⟨happ.log, happ.pending⟩ hxs

theorem popMessage_effect {io io' : IoThread cap sendCap} (ht : io.Tagged)
    (h : io.popMessage = some io') (e : IoEvent) : io.Effect e io' ∧ io'.Tagged := by
  unfold popMessage at h
  split at h
  · rename_i x q hhandling hpop
    cases h
    have hitems := BoundedFifo.pop_eq_some_iff.1 hpop
    refine ⟨.quiet rfl rfl ?_ ?_, ht⟩
    · rw [log, log, hitems, List.append_assoc]
      rfl
    · rw [pending, pending, hitems, hhandling]
      exact .refl _
  · cases h

theorem readSocket_effect {io : IoThread cap sendCap} (ht : io.Tagged) (fd : ℤ) (e : IoEvent) :
    io.Effect e (io.readSocket fd) ∧ (io.readSocket fd).Tagged := by
  unfold readSocket
  split_ifs
  · split
    · exact ⟨effect_quiet rfl rfl rfl rfl rfl, ht⟩
    · split_ifs <;> exact ⟨effect_quiet rfl rfl rfl rfl rfl, ht⟩
  · exact ⟨effect_quiet rfl rfl rfl rfl rfl, ht⟩

theorem writeSocket_effect {io : IoThread cap sendCap} (ht : io.Tagged) (fd : ℤ) (e : IoEvent) :
    io.Effect e (io.writeSocket fd) ∧ (io.writeSocket fd).Tagged := by
  unfold writeSocket
  split_ifs
  · split
    · exact ⟨effect_quiet rfl rfl rfl rfl rfl, ht⟩
    · split_ifs <;> exact ⟨effect_quiet rfl rfl rfl rfl rfl, ht⟩
  · exact ⟨effect_quiet rfl rfl rfl rfl rfl, ht⟩

/-- **What a step can do.** -/
theorem step_effect {io io' : IoThread cap sendCap} {maxPackageSize : ℕ} {e : IoEvent}
    (ht : io.Tagged) (h : io.step maxPackageSize e = some io') : io.Effect e io' ∧ io'.Tagged := by
  unfold step at h
  by_cases hrun : io.aborted = true
  · rw [if_pos hrun] at h
    cases h
  rw [if_neg hrun] at h
  cases e with
  | pollError fd =>
    dsimp only at h
    split_ifs at h
    rcases hrem : io.removeSocket fd with _ | io₁ <;> rw [hrem] at h <;> cases h
    · exact ⟨effect_quiet rfl rfl rfl rfl rfl, ht⟩
    · exact removeSocket_effect ht id hrem
  | pollIn fd =>
    dsimp only at h
    split_ifs at h
    cases h
    exact readSocket_effect ht fd _
  | pollOut fd =>
    dsimp only at h
    split_ifs at h
    cases h
    exact writeSocket_effect ht fd _
  | accept fd pollAdd recvs sends =>
    dsimp only at h
    split at h <;> cases h
    exact acceptSocket_effect ht fd pollAdd recvs sends
  | acceptDone =>
    dsimp only at h
    split at h <;> cases h
    exact ⟨effect_quiet rfl rfl rfl rfl rfl, ht⟩
  | turn => exact ioTurn_effect ht h
  | pop => exact popMessage_effect ht h _
  | respond fd msgid payload pollout =>
    cases h
    exact respond_effect ht _ pollout _
  | handled =>
    dsimp only at h
    split_ifs at h
    cases h
    exact ⟨.quiet rfl rfl rfl (List.sublist_append_right _ _), ht⟩
  | newServer fd pollAdd =>
    cases h
    exact newSocket_effect ht nofun fun hfree hadd => ⟨rfl, hfree, hadd⟩
  | newClient fd pollAdd recvs sends =>
    cases h
    exact newSocket_effect ht nofun fun hfree hadd => ⟨rfl, hfree, hadd⟩

theorem tagged_new : (new cap sendCap).Tagged := nofun

end IoThread

end Slam
