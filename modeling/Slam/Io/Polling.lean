import Slam.Lib.EdgePoll
import Slam.Io.IoThread

/-!
# `io/slam_poll.c`: how the two threads wait

The io thread and the worker each sleep in `slam_poll_wait` on a poll set of their own, and every registration is
edge-triggered. The io thread reports nothing twice: it has to go on with a descriptor until the kernel would block.
The worker looks at the queue after each wakeup, and the io thread wakes it by modifying the registration of a
descriptor that can always be written to.

`Polled` adds this to `IoThread`. What the kernel decides comes with the event, and `step` refuses what no kernel does:
`recv` and `accept` answer `EAGAIN` only when there is nothing to read, `send` only when there is no room, and a new
descriptor is one that is not in use. The steps of the worker are finer than before: `slam_io_response` pushes a message
and then modifies the registration, and `slam_io_thread_add_socket` registers a descriptor and then puts the socket into
the table. The process is one that nobody has told to halt.

* `Polled.step`: the two threads and the kernel;
* `step_io`, `run_io`: they do what `IoThread.step` does.
-/

namespace Slam

/-- What can be reported of a descriptor. `EPOLLERR` stands for `EPOLLHUP` and `EPOLLRDHUP` too, which are treated like it. -/
inductive PollCondition
  | pollerr
  | pollin
  | pollout
  deriving DecidableEq

instance : Fintype PollCondition := ⟨{.pollerr, .pollin, .pollout}, fun k => by cases k <;> decide⟩

/-- `event.events` of a registration. Errors are always reported. -/
def pollMask (pollout : Bool) : PollCondition → Bool
  | .pollout => pollout
  | _ => true

/-- What is reported of a descriptor. -/
abbrev PollEvent := ℤ × (PollCondition → Bool)

/-- Where the io thread stands in `slam_io_thread_do_message`. Of the first event, the parts that have been dealt with are
taken out. -/
inductive IoStage
  /-- In `slam_poll_wait`. -/
  | waiting
  | handling (events : List PollEvent)
  /-- In front of `slam_message_queue_empty`. -/
  | checking
  /-- In front of `slam_runnable_wakeup`. -/
  | waking

/-- The events that are left. -/
def IoStage.events : IoStage → List PollEvent
  | .handling events => events
  | _ => []

/-- Where the worker stands in `slam_runnable_run`. -/
inductive WorkerStage
  /-- In `slam_poll_wait`. -/
  | waiting
  /-- In `slam_runnable_do_message`. -/
  | draining
  /-- In `slam_timer_list_run`, or the entry file is being loaded. -/
  | timers
  deriving DecidableEq

/-- What the worker has begun and not finished. -/
inductive WorkerCall
  | none
  /-- `slam_io_response` has pushed the message. -/
  | responding (fd : ℤ)
  /-- `slam_io_thread_add_socket` has registered the descriptor. -/
  | adding (fd : ℤ)
  deriving DecidableEq

/-- The two threads with their poll sets, and the conditions that the kernel sees. -/
structure Polled (cap sendCap : ℕ) where
  io : IoThread cap sendCap
  stage : IoStage
  poll : EdgePoll ℤ PollCondition
  level : ℤ → PollCondition → Bool
  worker : WorkerStage
  call : WorkerCall
  wakeup : EdgePoll Unit PollCondition

/-- A step of a thread or of the kernel. Where a call may take the last byte, or the last room, `ends` says that it does. -/
inductive PolledEvent
  /-- A condition comes to hold. If it does already, there is an edge all the same if `again`. -/
  | rise (fd : ℤ) (k : PollCondition) (again : Bool)
  /-- `slam_poll_wait` of the io thread returns with these descriptors. -/
  | wait (fds : List ℤ)
  /-- The next part of the next event. -/
  | next
  | turn (ends : Bool)
  | accept (fd : ℤ) (pollAdd : Bool) (conditions : PollCondition → Bool) (recvs : List RecvAnswer) (sends : List SendAnswer)
    (ends : Bool)
  /-- `slam_socket_accept` returns null. -/
  | acceptDone (wouldblock : Bool)
  /-- `slam_message_queue_empty` -/
  | check
  /-- `slam_runnable_wakeup` -/
  | wakeup
  /-- `slam_poll_wait` of the worker returns, with an event or without. -/
  | workerWait (woken : Bool)
  | pop
  | handled
  /-- The worker finds the queue empty. -/
  | drained
  /-- The worker goes back to `slam_poll_wait`. -/
  | sleep
  | respond (fd msgid : ℤ) (payload : List Byte)
  /-- `slam_poll_set_socket_pollout` in `slam_io_response`. -/
  | setPollout
  /-- `slam_poll_add_socket` in `slam_io_thread_add_socket`, which returns true. -/
  | register (fd : ℤ) (conditions : PollCondition → Bool)
  | newServer
  | newClient (recvs : List RecvAnswer) (sends : List SendAnswer)

/-- What a loop of the io thread goes on with. -/
def awaited : IoControl → Option (ℤ × PollCondition)
  | .accepting fd | .reading fd => some (fd, .pollin)
  | .writing fd => some (fd, .pollout)
  | .idle | .removing _ => none

namespace Polled

variable {cap sendCap : ℕ}

/-- The descriptor that the worker is woken with: it has room, and nothing to read. -/
def wakeupLevel : Unit → PollCondition → Bool := fun _ k => k = .pollout

/-- `slam_runnable_new`, `slam_io_thread_new`: each poll set has one end of `fd_io_sockets`. -/
def new (cap sendCap : ℕ) (fdIo : ℤ) : Polled cap sendCap where
  io := IoThread.new cap sendCap
  stage := .waiting
  poll := EdgePoll.empty.set (fun fd k => fd = fdIo && k = .pollout) fdIo (pollMask false)
  level := fun fd k => fd = fdIo && k = .pollout
  worker := .timers
  call := .none
  wakeup := EdgePoll.empty.set wakeupLevel () (pollMask false)

/-- The condition that is awaited holds no longer, if the call has ended it. -/
def levelAfter (p : Polled cap sendCap) (ends : Bool) : ℤ → PollCondition → Bool :=
  match awaited p.io.control with
  | some x => if ends then EdgePoll.setLevel p.level x.1 x.2 false else p.level
  | none => p.level

/-- A loop ends in this turn because `recv` or `send` would block. -/
def wouldBlock (maxPackageSize : ℕ) (p : Polled cap sendCap) : Bool :=
  match p.io.control with
  | .reading fd => p.io.sockets fd |>.any fun s =>
    (pollReadTurn (IoThread.pushTagged s.conn) maxPackageSize fd ⟨s.readmessage, p.io.mq, s.recvScript, []⟩).1 = some .wouldblock
  | .writing fd => p.io.sockets fd |>.any fun s => s.sender.pollWriteTurn.1 = some .wouldblock
  | _ => false

/-- The kernel may answer like this: what would block does not hold. -/
def Coherent (p : Polled cap sendCap) (blocks : Bool) (level : ℤ → PollCondition → Bool) : Prop :=
  blocks → ∀ x ∈ awaited p.io.control, level x.1 x.2 = false

instance (p : Polled cap sendCap) (blocks : Bool) (level : ℤ → PollCondition → Bool) : Decidable (p.Coherent blocks level) :=
  inferInstanceAs (Decidable (_ → _))

/-- `slam_poll_remove_socket`, in `slam_io_thread_remove_socket`. -/
def unregister (p : Polled cap sendCap) (fd : ℤ) : EdgePoll ℤ PollCondition :=
  if p.io.sockets fd = none then p.poll else p.poll.remove fd

/-- A turn of the io thread removes a socket, or leaves the registrations alone. -/
def pollAfter (p : Polled cap sendCap) : EdgePoll ℤ PollCondition :=
  match p.io.control with
  | .removing fd => p.unregister fd
  | _ => p.poll

/-- `slam_poll_set_socket_pollout`, which fails if the descriptor is not registered. -/
def setSocketPollout (p : Polled cap sendCap) (fd : ℤ) : EdgePoll ℤ PollCondition :=
  match p.poll.interest fd with
  | none => p.poll
  | some _ => p.poll.set p.level fd (pollMask true)

/-- The next part of an event in `slam_io_thread_do_message`. -/
def handleEvent (maxPackageSize : ℕ) (p : Polled cap sendCap) (fd : ℤ) (events : PollCondition → Bool) (rest : List PollEvent) :
    Option (Polled cap sendCap) :=
  if events .pollerr then
    (p.io.step maxPackageSize (.pollError fd)).map fun io' =>
      { p with io := io', poll := p.unregister fd, stage := .handling rest }
  else if events .pollin then
    (p.io.step maxPackageSize (.pollIn fd)).map fun io' =>
      { p with io := io', stage := .handling ((fd, Function.update events .pollin false) :: rest) }
  else if events .pollout then
    (p.io.step maxPackageSize (.pollOut fd)).map fun io' => { p with io := io', stage := .handling rest }
  else some { p with stage := .handling rest }

/-- The script of the worker is running. -/
def LuaRunning (p : Polled cap sendCap) : Prop :=
  p.call = .none ∧ (p.worker = .timers ∨ p.worker = .draining ∧ p.io.handling ≠ none)

instance (p : Polled cap sendCap) : Decidable p.LuaRunning := inferInstanceAs (Decidable (_ ∧ _))

/-- `slam_io_response` finds the socket, and room in its queue. -/
def pushes (p : Polled cap sendCap) (fd msgid : ℤ) (payload : List Byte) : Bool :=
  (ioResponse Socket.writeMessage p.io.sockets (encodedMessage fd msgid payload) true).1

/-- One step; `none` when it cannot be taken. -/
def step (maxPackageSize : ℕ) (p : Polled cap sendCap) (e : PolledEvent) : Option (Polled cap sendCap) :=
  if p.io.aborted then none
  else
    match e with
    | .rise fd k again =>
      some { p with
        level := EdgePoll.setLevel p.level fd k true
        poll := if p.level fd k && !again then p.poll else p.poll.notify fd k }
    | .wait fds =>
      match p.stage with
      | .waiting =>
        if ∀ fd ∈ fds, p.poll.ready fd then
          some { p with stage := .handling (fds.map fun fd => (fd, p.poll.report p.level fd)), poll := p.poll.wait fds }
        else none
      | _ => none
    | .next =>
      if p.io.control = .idle then
        match p.stage with
        | .handling [] => some { p with stage := .checking }
        | .handling ((fd, events) :: rest) => p.handleEvent maxPackageSize fd events rest
        | _ => none
      else none
    | .turn ends =>
      if p.Coherent (p.wouldBlock maxPackageSize) (p.levelAfter ends) then
        (p.io.step maxPackageSize .turn).map fun io' =>
          { p with io := io', level := p.levelAfter ends, poll := p.pollAfter }
      else none
    | .accept fd pollAdd conditions recvs sends ends =>
      if p.poll.interest fd = none then
        (p.io.step maxPackageSize (.accept fd pollAdd recvs sends)).map fun io' =>
          { p with
            io := io'
            level := Function.update (p.levelAfter ends) fd conditions
            poll := if pollAdd then p.poll.set (Function.update (p.levelAfter ends) fd conditions) fd (pollMask false) else p.poll }
      else none
    | .acceptDone wouldblock =>
      if p.Coherent wouldblock p.level then (p.io.step maxPackageSize .acceptDone).map fun io' => { p with io := io' }
      else none
    | .check =>
      match p.stage with
      | .checking => some { p with stage := if p.io.mq.items = [] then .waiting else .waking }
      | _ => none
    | .wakeup =>
      match p.stage with
      | .waking => some { p with stage := .waiting, wakeup := p.wakeup.set wakeupLevel () (pollMask true) }
      | _ => none
    | .workerWait woken =>
      if p.worker = .waiting then
        some { p with worker := .draining, wakeup := if woken then p.wakeup.wait [()] else p.wakeup }
      else none
    | .pop =>
      if p.worker = .draining then (p.io.step maxPackageSize .pop).map fun io' => { p with io := io' } else none
    | .handled =>
      if p.call = .none then (p.io.step maxPackageSize .handled).map fun io' => { p with io := io' } else none
    | .drained =>
      if p.worker = .draining ∧ p.io.handling = none ∧ p.io.mq.items = [] then some { p with worker := .timers } else none
    | .sleep => if p.worker = .timers ∧ p.call = .none then some { p with worker := .waiting } else none
    | .respond fd msgid payload =>
      if p.LuaRunning then
        (p.io.step maxPackageSize (.respond fd msgid payload true)).map fun io' =>
          { p with io := io', call := if p.pushes fd msgid payload then .responding fd else .none }
      else none
    | .setPollout =>
      match p.call with
      | .responding fd => some { p with poll := p.setSocketPollout fd, call := .none }
      | _ => none
    | .register fd conditions =>
      if p.LuaRunning ∧ p.poll.interest fd = none then
        some { p with
          level := Function.update p.level fd conditions
          poll := p.poll.set (Function.update p.level fd conditions) fd (pollMask false)
          call := .adding fd }
      else none
    | .newServer =>
      match p.call with
      | .adding fd => (p.io.step maxPackageSize (.newServer fd true)).map fun io' => { p with io := io', call := .none }
      | _ => none
    | .newClient recvs sends =>
      match p.call with
      | .adding fd =>
        (p.io.step maxPackageSize (.newClient fd true recvs sends)).map fun io' => { p with io := io', call := .none }
      | _ => none

/-- The system of the two threads and the kernel. -/
def system (cap sendCap maxPackageSize : ℕ) : Machine (Polled cap sendCap) PolledEvent where
  step := step maxPackageSize

/-! ### What a step can do -/

/-- Everything a step can do, with its guards. -/
inductive Step (maxPackageSize : ℕ) (p : Polled cap sendCap) : PolledEvent → Polled cap sendCap → Prop
  | rise (fd : ℤ) (k : PollCondition) (again : Bool) : Step maxPackageSize p (.rise fd k again) { p with
      level := EdgePoll.setLevel p.level fd k true
      poll := if p.level fd k && !again then p.poll else p.poll.notify fd k }
  | wait {fds : List ℤ} (hstage : p.stage = .waiting) : Step maxPackageSize p (.wait fds) { p with
      stage := .handling (fds.map fun fd => (fd, p.poll.report p.level fd)), poll := p.poll.wait fds }
  | finish (hidle : p.io.control = .idle) (hstage : p.stage = .handling []) :
      Step maxPackageSize p .next { p with stage := .checking }
  | pollError {fd : ℤ} {events : PollCondition → Bool} {rest : List PollEvent} {io' : IoThread cap sendCap}
      (hidle : p.io.control = .idle) (hstage : p.stage = .handling ((fd, events) :: rest)) (hevent : events .pollerr = true)
      (hio : p.io.step maxPackageSize (.pollError fd) = some io') : Step maxPackageSize p .next { p with
        io := io', poll := p.unregister fd, stage := .handling rest }
  | pollIn {fd : ℤ} {events : PollCondition → Bool} {rest : List PollEvent} {io' : IoThread cap sendCap}
      (hidle : p.io.control = .idle) (hstage : p.stage = .handling ((fd, events) :: rest)) (herror : events .pollerr = false)
      (hevent : events .pollin = true) (hio : p.io.step maxPackageSize (.pollIn fd) = some io') :
      Step maxPackageSize p .next { p with
        io := io', stage := .handling ((fd, Function.update events .pollin false) :: rest) }
  | pollOut {fd : ℤ} {events : PollCondition → Bool} {rest : List PollEvent} {io' : IoThread cap sendCap}
      (hidle : p.io.control = .idle) (hstage : p.stage = .handling ((fd, events) :: rest)) (herror : events .pollerr = false)
      (hin : events .pollin = false) (hio : p.io.step maxPackageSize (.pollOut fd) = some io') :
      Step maxPackageSize p .next { p with io := io', stage := .handling rest }
  | skip {fd : ℤ} {events : PollCondition → Bool} {rest : List PollEvent} (hidle : p.io.control = .idle)
      (hstage : p.stage = .handling ((fd, events) :: rest)) (hevents : ∀ k, events k = false) :
      Step maxPackageSize p .next { p with stage := .handling rest }
  | turn {ends : Bool} {io' : IoThread cap sendCap} (hcoherent : p.Coherent (p.wouldBlock maxPackageSize) (p.levelAfter ends))
      (hio : p.io.step maxPackageSize .turn = some io') :
      Step maxPackageSize p (.turn ends) { p with io := io', level := p.levelAfter ends, poll := p.pollAfter }
  | accept {fd : ℤ} {pollAdd : Bool} {conditions : PollCondition → Bool} {recvs : List RecvAnswer} {sends : List SendAnswer}
      {ends : Bool} {io' : IoThread cap sendCap} (hnew : p.poll.interest fd = none)
      (hio : p.io.step maxPackageSize (.accept fd pollAdd recvs sends) = some io') :
      Step maxPackageSize p (.accept fd pollAdd conditions recvs sends ends) { p with
        io := io'
        level := Function.update (p.levelAfter ends) fd conditions
        poll := if pollAdd then p.poll.set (Function.update (p.levelAfter ends) fd conditions) fd (pollMask false) else p.poll }
  | acceptDone {wouldblock : Bool} {io' : IoThread cap sendCap} (hcoherent : p.Coherent wouldblock p.level)
      (hio : p.io.step maxPackageSize .acceptDone = some io') : Step maxPackageSize p (.acceptDone wouldblock) { p with io := io' }
  | check (hstage : p.stage = .checking) :
      Step maxPackageSize p .check { p with stage := if p.io.mq.items = [] then .waiting else .waking }
  | wakeup (hstage : p.stage = .waking) : Step maxPackageSize p .wakeup { p with
      stage := .waiting, wakeup := p.wakeup.set wakeupLevel () (pollMask true) }
  | workerWait {woken : Bool} (hworker : p.worker = .waiting) : Step maxPackageSize p (.workerWait woken) { p with
      worker := .draining, wakeup := if woken then p.wakeup.wait [()] else p.wakeup }
  | pop {io' : IoThread cap sendCap} (hworker : p.worker = .draining) (hio : p.io.step maxPackageSize .pop = some io') :
      Step maxPackageSize p .pop { p with io := io' }
  | handled {io' : IoThread cap sendCap} (hcall : p.call = .none) (hio : p.io.step maxPackageSize .handled = some io') :
      Step maxPackageSize p .handled { p with io := io' }
  | drained (hworker : p.worker = .draining) (hmq : p.io.mq.items = []) :
      Step maxPackageSize p .drained { p with worker := .timers }
  | sleep (hworker : p.worker = .timers) (hcall : p.call = .none) :
      Step maxPackageSize p .sleep { p with worker := .waiting }
  | respond {fd msgid : ℤ} {payload : List Byte} {io' : IoThread cap sendCap} (hlua : p.LuaRunning)
      (hio : p.io.step maxPackageSize (.respond fd msgid payload true) = some io') :
      Step maxPackageSize p (.respond fd msgid payload) { p with
        io := io', call := if p.pushes fd msgid payload then .responding fd else .none }
  | setPollout {fd : ℤ} (hcall : p.call = .responding fd) :
      Step maxPackageSize p .setPollout { p with poll := p.setSocketPollout fd, call := .none }
  | register {fd : ℤ} {conditions : PollCondition → Bool} (hlua : p.LuaRunning) (hnew : p.poll.interest fd = none) :
      Step maxPackageSize p (.register fd conditions) { p with
        level := Function.update p.level fd conditions
        poll := p.poll.set (Function.update p.level fd conditions) fd (pollMask false)
        call := .adding fd }
  | newSocket {fd : ℤ} {e : PolledEvent} {e' : IoEvent} {io' : IoThread cap sendCap} (hcall : p.call = .adding fd)
      (he' : e' = .newServer fd true ∨ ∃ recvs sends, e' = .newClient fd true recvs sends)
      (hio : p.io.step maxPackageSize e' = some io') : Step maxPackageSize p e { p with io := io', call := .none }

variable {maxPackageSize : ℕ} {p p' : Polled cap sendCap} {e : PolledEvent}

theorem handleEvent_cases {fd : ℤ} {events : PollCondition → Bool} {rest : List PollEvent} (hidle : p.io.control = .idle)
    (hstage : p.stage = .handling ((fd, events) :: rest)) (h : p.handleEvent maxPackageSize fd events rest = some p') :
    Step maxPackageSize p .next p' := by
  unfold handleEvent at h
  split_ifs at h with herror hin hout
  · obtain ⟨io', hio, rfl⟩ := Option.map_eq_some_iff.1 h
    exact .pollError hidle hstage herror hio
  · obtain ⟨io', hio, rfl⟩ := Option.map_eq_some_iff.1 h
    exact .pollIn hidle hstage (Bool.eq_false_iff.2 herror) hin hio
  · obtain ⟨io', hio, rfl⟩ := Option.map_eq_some_iff.1 h
    exact .pollOut hidle hstage (Bool.eq_false_iff.2 herror) (Bool.eq_false_iff.2 hin) hio
  · obtain rfl := Option.some.inj h
    refine .skip hidle hstage fun k => ?_
    cases k <;> simp_all

/-- **What a step can do.** -/
theorem step_cases (h : p.step maxPackageSize e = some p') : p.io.aborted = false ∧ Step maxPackageSize p e p' := by
  have haborted : p.io.aborted = false := by
    refine Bool.eq_false_iff.2 fun haborted => ?_
    rw [step.eq_def, if_pos haborted] at h
    cases h
  refine ⟨haborted, ?_⟩
  rw [step.eq_def, if_neg (Bool.eq_false_iff.1 haborted)] at h
  cases e with
  | rise fd k again =>
    obtain rfl := Option.some.inj h
    exact .rise fd k again
  | wait fds =>
    dsimp only at h
    split at h
    · next hstage =>
      split_ifs at h
      obtain rfl := Option.some.inj h
      exact .wait hstage
    · cases h
  | next =>
    obtain ⟨hidle, h⟩ := Option.ite_none_right_eq_some.1 h
    split at h
    · next hstage =>
      obtain rfl := Option.some.inj h
      exact .finish hidle hstage
    · next hstage => exact handleEvent_cases hidle hstage h
    · cases h
  | turn ends =>
    obtain ⟨hcoherent, h⟩ := Option.ite_none_right_eq_some.1 h
    obtain ⟨io', hio, rfl⟩ := Option.map_eq_some_iff.1 h
    exact .turn hcoherent hio
  | accept fd pollAdd conditions recvs sends ends =>
    obtain ⟨hnew, h⟩ := Option.ite_none_right_eq_some.1 h
    obtain ⟨io', hio, rfl⟩ := Option.map_eq_some_iff.1 h
    exact .accept hnew hio
  | acceptDone wouldblock =>
    obtain ⟨hcoherent, h⟩ := Option.ite_none_right_eq_some.1 h
    obtain ⟨io', hio, rfl⟩ := Option.map_eq_some_iff.1 h
    exact .acceptDone hcoherent hio
  | check =>
    dsimp only at h
    split at h
    · next hstage =>
      obtain rfl := Option.some.inj h
      exact .check hstage
    · cases h
  | wakeup =>
    dsimp only at h
    split at h
    · next hstage =>
      obtain rfl := Option.some.inj h
      exact .wakeup hstage
    · cases h
  | workerWait woken =>
    obtain ⟨hworker, h⟩ := Option.ite_none_right_eq_some.1 h
    obtain rfl := Option.some.inj h
    exact .workerWait hworker
  | pop =>
    obtain ⟨hworker, h⟩ := Option.ite_none_right_eq_some.1 h
    obtain ⟨io', hio, rfl⟩ := Option.map_eq_some_iff.1 h
    exact .pop hworker hio
  | handled =>
    obtain ⟨hcall, h⟩ := Option.ite_none_right_eq_some.1 h
    obtain ⟨io', hio, rfl⟩ := Option.map_eq_some_iff.1 h
    exact .handled hcall hio
  | drained =>
    obtain ⟨hdrained, h⟩ := Option.ite_none_right_eq_some.1 h
    obtain rfl := Option.some.inj h
    exact .drained hdrained.1 hdrained.2.2
  | sleep =>
    obtain ⟨hsleep, h⟩ := Option.ite_none_right_eq_some.1 h
    obtain rfl := Option.some.inj h
    exact .sleep hsleep.1 hsleep.2
  | respond fd msgid payload =>
    obtain ⟨hlua, h⟩ := Option.ite_none_right_eq_some.1 h
    obtain ⟨io', hio, rfl⟩ := Option.map_eq_some_iff.1 h
    exact .respond hlua hio
  | setPollout =>
    dsimp only at h
    split at h
    · next hcall =>
      obtain rfl := Option.some.inj h
      exact .setPollout hcall
    · cases h
  | register fd conditions =>
    obtain ⟨hregister, h⟩ := Option.ite_none_right_eq_some.1 h
    obtain rfl := Option.some.inj h
    exact .register hregister.1 hregister.2
  | newServer =>
    dsimp only at h
    split at h
    · next hcall =>
      obtain ⟨io', hio, rfl⟩ := Option.map_eq_some_iff.1 h
      exact .newSocket hcall (.inl rfl) hio
    · cases h
  | newClient recvs sends =>
    dsimp only at h
    split at h
    · next hcall =>
      obtain ⟨io', hio, rfl⟩ := Option.map_eq_some_iff.1 h
      exact .newSocket hcall (.inr ⟨recvs, sends, rfl⟩) hio
    · cases h

/-- Nothing changes for the threads, or they take one of their steps. -/
theorem step_io (h : p.step maxPackageSize e = some p') : p'.io = p.io ∨ ∃ e', p.io.step maxPackageSize e' = some p'.io := by
  obtain ⟨-, hstep⟩ := step_cases h
  cases hstep with
  | pollError _ _ _ hio => exact .inr ⟨_, hio⟩
  | pollIn _ _ _ _ hio => exact .inr ⟨_, hio⟩
  | pollOut _ _ _ _ hio => exact .inr ⟨_, hio⟩
  | turn _ hio => exact .inr ⟨_, hio⟩
  | accept _ hio => exact .inr ⟨_, hio⟩
  | acceptDone _ hio => exact .inr ⟨_, hio⟩
  | pop _ hio => exact .inr ⟨_, hio⟩
  | handled _ hio => exact .inr ⟨_, hio⟩
  | respond _ hio => exact .inr ⟨_, hio⟩
  | newSocket _ _ hio => exact .inr ⟨_, hio⟩
  | _ => exact .inl rfl

/-- **The threads do what `IoThread` says**: a run leaves them where one of their own runs does. -/
theorem run_io {es : List PolledEvent} (h : (system cap sendCap maxPackageSize).run p es = some p') :
    ∃ es', (IoThread.system cap sendCap maxPackageSize).run p.io es' = some p'.io := by
  induction es generalizing p with
  | nil =>
    obtain rfl := Option.some.inj h
    exact ⟨[], rfl⟩
  | cons e es ih =>
    obtain ⟨q, hstep, hrun⟩ := Machine.run_cons_eq_some.1 h
    obtain ⟨es', hes'⟩ := ih hrun
    rcases step_io hstep with hsame | ⟨e', he'⟩
    · exact ⟨es', hsame ▸ hes'⟩
    · exact ⟨e' :: es', Machine.run_cons_eq_some.2 ⟨q.io, he', hes'⟩⟩

end Polled

end Slam
