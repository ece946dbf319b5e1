import Slam.Io.Table

/-!
# No edge is lost

An edge-triggered descriptor is reported once. What the two threads keep is that every condition which holds and is
watched is about to be reported, or is being looked after by the io thread (`Attended`), or is room that nobody needs
(`Unneeded`).

* `pollout_of_unsent`: when the io thread sleeps, a message in a send queue has its descriptor watched for room, and
  reported as soon as there is some;
* `pollin_of_readable`: when it sleeps, everything there is to read is reported, unless an event has been dropped;
* `wakeup_of_queued`: when both sleep and there is a message for the worker, the worker is about to be woken.

An event is dropped in two ways (`Drops`). The worker registers a descriptor before its socket is in the table, and
the io thread ignores what is reported in between. And the io thread stops accepting on any error of `accept`.
-/

namespace Slam

namespace Polled

variable {cap sendCap maxPackageSize : ℕ} {p p' : Polled cap sendCap} {e : PolledEvent} {fd : ℤ}

/-! ### What is registered -/

/-- What is in the table is registered, and for `EPOLLOUT` too if there is something to send. -/
structure Registered (p : Polled cap sendCap) : Prop where
  known : ∀ fd, p.io.Known fd → p.poll.interest fd ≠ none
  unsent : ∀ fd, p.io.Unsent fd → p.poll.interest fd = some (pollMask true) ∨ p.call = .responding fd
  adding : ∀ fd, p.call = .adding fd → p.poll.interest fd ≠ none ∧ ¬ p.io.Known fd

theorem Registered.keeps (h : p.Registered) (hio : p.io.Keeps p'.io) (hinterest : p'.poll.interest = p.poll.interest)
    (hcall : p'.call = p.call) : p'.Registered where
  known fd hknown := by
    rw [hinterest]
    exact h.known fd ((hio.known fd).1 hknown)
  unsent fd hunsent := by
    rw [hinterest, hcall]
    exact h.unsent fd (hio.unsent fd hunsent)
  adding fd hadding := by
    rw [hcall] at hadding
    rw [hinterest, hio.known]
    exact h.adding fd hadding

theorem unregister_of_known (h : p.io.Known fd) : p.unregister fd = p.poll.remove fd := if_neg h

theorem unregister_of_not_known (h : ¬ p.io.Known fd) : p.unregister fd = p.poll := if_pos (not_not.1 h)

theorem unregister_interest_of_ne {fd' : ℤ} (h : fd' ≠ fd) : (p.unregister fd).interest fd' = p.poll.interest fd' := by
  rw [unregister]
  split_ifs
  · rfl
  · exact EdgePoll.remove_interest_of_ne h

/-- A socket is removed, if there is one. -/
theorem Registered.remove (h : p.Registered) (hremove : p.io.removeSocket fd = some p'.io) (hpoll : p'.poll = p.unregister fd)
    (hcall : p'.call = p.call) : p'.Registered := by
  have htable := IoThread.removeSocket_table hremove
  refine ⟨fun fd' hknown => ?_, fun fd' hunsent => ?_, fun fd' hadding => ?_⟩
  · obtain ⟨hknown, hne⟩ := (htable fd').2.1.1 hknown
    rw [hpoll, unregister_interest_of_ne hne]
    exact h.known fd' hknown
  · obtain ⟨hunsent, hne⟩ := (htable fd').2.2 hunsent
    rw [hpoll, unregister_interest_of_ne hne, hcall]
    exact h.unsent fd' hunsent
  · rw [hcall] at hadding
    obtain ⟨hinterest, hfree⟩ := h.adding fd' hadding
    refine ⟨?_, fun hknown => hfree ((htable fd').2.1.1 hknown).1⟩
    by_cases heq : fd' = fd
    · rw [hpoll, unregister_of_not_known (heq ▸ hfree)]
      exact hinterest
    · rwa [hpoll, unregister_interest_of_ne heq]

/-- A socket comes into the table that has been registered. -/
theorem Registered.adds (h : p.Registered) (hadds : p.io.Adds p'.io fd) (hpoll : ∀ fd', p.poll.interest fd' ≠ none →
    p'.poll.interest fd' = p.poll.interest fd') (hfd : p'.poll.interest fd ≠ none)
    (hresponding : ∀ fd', p.call = .responding fd' → p'.call = .responding fd')
    (hadding : ∀ fd', p'.call = .adding fd' → p.call = .adding fd' ∧ fd' ≠ fd) : p'.Registered := by
  refine ⟨fun fd' hknown => ?_, fun fd' hunsent => ?_, fun fd' hcall => ?_⟩
  · rcases (hadds.known fd').1 hknown with rfl | hknown
    · exact hfd
    · have hinterest := h.known fd' hknown
      rwa [hpoll fd' hinterest]
  · have hbefore := hadds.unsent fd' hunsent
    rw [hpoll fd' (h.known fd' hbefore.known)]
    exact (h.unsent fd' hbefore).imp_right (hresponding fd')
  · obtain ⟨hcall, hne⟩ := hadding fd' hcall
    obtain ⟨hinterest, hfree⟩ := h.adding fd' hcall
    rw [hpoll fd' hinterest]
    exact ⟨hinterest, fun hknown => ((hadds.known fd').1 hknown).elim hne hfree⟩

/-- What a turn of the io thread does to the table and to the registrations. -/
theorem ioTurn_cases {io' : IoThread cap sendCap} (h : p.io.ioTurn maxPackageSize = some io') :
    (∃ fd s, p.io.control = .reading fd ∧ p.io.sockets fd = some s ∧ io' = p.io.readTurn maxPackageSize fd s) ∨
    (∃ fd s, p.io.control = .writing fd ∧ p.io.sockets fd = some s ∧ io' = p.io.writeTurn fd s) ∨
    ∃ fd, p.io.control = .removing fd ∧ (io' = p.io.abort ∨ ∃ io₁, p.io.removeSocket fd = some io₁ ∧
      io' = { io₁ with control := .idle }) := by
  unfold IoThread.ioTurn at h
  split at h
  · cases h
  · cases h
  · next fd hcontrol =>
    obtain ⟨s, hs, rfl⟩ := Option.map_eq_some_iff.1 h
    exact .inl ⟨fd, s, hcontrol, hs, rfl⟩
  · next fd hcontrol =>
    obtain ⟨s, hs, rfl⟩ := Option.map_eq_some_iff.1 h
    exact .inr (.inl ⟨fd, s, hcontrol, hs, rfl⟩)
  · next fd hcontrol =>
    refine .inr (.inr ⟨fd, hcontrol, ?_⟩)
    split at h
    · exact .inl (Option.some.inj h).symm
    · next io₁ hremove => exact .inr ⟨io₁, hremove, (Option.some.inj h).symm⟩

theorem Registered.step (h : p.Registered) (haborted : p.io.aborted = false) (hstep : Step maxPackageSize p e p')
    (halive : p'.io.aborted = false) : p'.Registered := by
  cases hstep with
  | rise fd k again =>
    refine h.keeps (IoThread.keeps_of_sockets rfl) ?_ rfl
    dsimp only
    split_ifs
    · rfl
    · exact EdgePoll.notify_interest
  | pollError hidle _ _ hio => exact h.remove (IoThread.step_pollError haborted hidle hio halive) rfl rfl
  | pollIn hidle _ _ _ hio =>
    obtain rfl := IoThread.step_pollIn haborted hidle hio
    exact h.keeps (IoThread.readSocket_table halive).1 rfl rfl
  | pollOut hidle _ _ _ hio =>
    obtain rfl := IoThread.step_pollOut haborted hidle hio
    exact h.keeps (IoThread.writeSocket_table halive).1 rfl rfl
  | turn _ hio =>
    rcases ioTurn_cases (IoThread.step_turn haborted hio) with ⟨fd, s, hcontrol, hs, rfl⟩ | ⟨fd, s, hcontrol, hs, rfl⟩ |
      ⟨fd, hcontrol, rfl | ⟨io₁, hremove, rfl⟩⟩
    · exact h.keeps (IoThread.readTurn_table hs).1 (by rw [pollAfter, hcontrol]) rfl
    · exact h.keeps (IoThread.writeTurn_table hs).1 (by rw [pollAfter, hcontrol]) rfl
    · cases halive
    · have hpoll : p.pollAfter = p.unregister fd := by rw [pollAfter, hcontrol]
      have hremoved : ({ p with io := io₁, poll := p.unregister fd } : Polled cap sendCap).Registered := h.remove hremove rfl rfl
      rw [hpoll]
      exact hremoved.keeps (IoThread.keeps_of_sockets rfl) rfl rfl
  | @accept fd pollAdd conditions recvs sends ends io' hnew hio =>
    obtain ⟨-, rfl⟩ := IoThread.step_accept haborted hio
    obtain ⟨-, ⟨rfl, hkeeps⟩ | ⟨rfl, hadds⟩⟩ := IoThread.acceptSocket_table halive
    · exact h.keeps hkeeps rfl rfl
    · have hne (fd' : ℤ) (hinterest : p.poll.interest fd' ≠ none) : fd' ≠ fd := fun heq => hinterest (heq ▸ hnew)
      refine h.adds hadds (fun fd' hinterest => ?_) ?_ (fun _ => id) fun fd' hadding => ⟨hadding, hne fd' (h.adding fd' hadding).1⟩
      · exact EdgePoll.set_interest_of_ne (hne fd' hinterest)
      · dsimp only
        rw [if_pos rfl, EdgePoll.set_interest_self]
        simp
  | acceptDone _ hio =>
    exact h.keeps (IoThread.keeps_of_sockets (IoThread.step_acceptDone haborted hio).2.1) rfl rfl
  | pop _ hio => exact h.keeps (IoThread.keeps_of_sockets (IoThread.step_pop haborted hio).1) rfl rfl
  | handled _ hio => exact h.keeps (IoThread.keeps_of_sockets (IoThread.step_handled haborted hio).1) rfl rfl
  | @respond fd msgid payload io' hlua hio =>
    obtain ⟨hknown, hunsent⟩ := IoThread.respond_table (IoThread.step_respond haborted hio).1
    refine ⟨fun fd' hfd' => h.known fd' ((hknown fd').1 hfd'), fun fd' hfd' => ?_, fun fd' hadding => ?_⟩
    · rcases hunsent fd' hfd' with hbefore | ⟨rfl, hpushes⟩
      · refine .inl ((h.unsent fd' hbefore).resolve_right fun hcall => ?_)
        rw [hlua.1] at hcall
        cases hcall
      · exact .inr (if_pos hpushes)
    · dsimp only at hadding
      split_ifs at hadding
  | @setPollout fd hcall =>
    have hpoll (fd' : ℤ) (hne : fd' ≠ fd) : (p.setSocketPollout fd).interest fd' = p.poll.interest fd' := by
      unfold setSocketPollout
      cases p.poll.interest fd with
      | none => rfl
      | some ks => exact EdgePoll.set_interest_of_ne hne
    have hself (hinterest : p.poll.interest fd ≠ none) : (p.setSocketPollout fd).interest fd = some (pollMask true) := by
      obtain ⟨ks, hks⟩ := Option.ne_none_iff_exists'.1 hinterest
      rw [setSocketPollout, hks]
      exact EdgePoll.set_interest_self
    refine ⟨fun fd' hknown => ?_, fun fd' hunsent => .inl ?_, fun fd' hadding => by cases hadding⟩
    · by_cases heq : fd' = fd
      · subst heq
        dsimp only
        rw [hself (h.known fd' hknown)]
        simp
      · rw [hpoll fd' heq]
        exact h.known fd' hknown
    · by_cases heq : fd' = fd
      · subst heq
        exact hself (h.known fd' hunsent.known)
      · refine (hpoll fd' heq).trans ((h.unsent fd' hunsent).resolve_right fun hcall' => heq ?_)
        rw [hcall] at hcall'
        exact (WorkerCall.responding.inj hcall').symm
  | @register fd conditions hlua hnew =>
    have hne (fd' : ℤ) (hinterest : p.poll.interest fd' ≠ none) : fd' ≠ fd := fun heq => hinterest (heq ▸ hnew)
    refine ⟨fun fd' hknown => ?_, fun fd' hunsent => .inl ?_, fun fd' hadding => ?_⟩
    · have hinterest := h.known fd' hknown
      dsimp only
      rwa [EdgePoll.set_interest_of_ne (hne fd' hinterest)]
    · have hinterest := h.known fd' hunsent.known
      refine (EdgePoll.set_interest_of_ne (hne fd' hinterest)).trans ((h.unsent fd' hunsent).resolve_right fun hcall => ?_)
      rw [hlua.1] at hcall
      cases hcall
    · obtain rfl := WorkerCall.adding.inj hadding
      refine ⟨?_, fun hknown => h.known fd hknown hnew⟩
      dsimp only
      rw [EdgePoll.set_interest_self]
      simp
  | @newSocket fd e e' io' hcall he' hio =>
    obtain ⟨type, recvs, sends, rfl⟩ := IoThread.step_newSocket haborted he' hio
    refine h.adds (IoThread.newSocket_table halive).2 (fun _ _ => rfl) (h.adding fd hcall).1 (fun fd' hresponding => ?_)
      fun fd' hadding => by cases hadding
    rw [hcall] at hresponding
    cases hresponding
  | _ => exact h.keeps (IoThread.keeps_of_sockets rfl) rfl rfl

/-- Errors and input are always watched. -/
def Masked (p : Polled cap sendCap) : Prop := ∀ fd ks, p.poll.interest fd = some ks → ∃ pollout, ks = pollMask pollout

theorem Masked.congr (h : p.Masked) (hinterest : p'.poll.interest = p.poll.interest) : p'.Masked := by
  rw [Masked, hinterest]
  exact h

theorem Masked.set {level : ℤ → PollCondition → Bool} {pollout : Bool} (h : p.Masked)
    (hpoll : p'.poll = p.poll.set level fd (pollMask pollout)) : p'.Masked := by
  intro fd' ks hks
  rw [hpoll] at hks
  by_cases heq : fd' = fd
  · subst heq
    rw [EdgePoll.set_interest_self, Option.some_inj] at hks
    exact ⟨pollout, hks.symm⟩
  · rw [EdgePoll.set_interest_of_ne heq] at hks
    exact h fd' ks hks

theorem Masked.unregister (h : p.Masked) (hpoll : p'.poll = p.unregister fd) : p'.Masked := by
  intro fd' ks hks
  rw [hpoll, Polled.unregister] at hks
  split_ifs at hks
  · exact h fd' ks hks
  · by_cases heq : fd' = fd
    · subst heq
      rw [EdgePoll.remove_interest_self] at hks
      cases hks
    · rw [EdgePoll.remove_interest_of_ne heq] at hks
      exact h fd' ks hks

theorem Masked.step (h : p.Masked) (hstep : Step maxPackageSize p e p') : p'.Masked := by
  cases hstep with
  | rise fd k again =>
    refine h.congr ?_
    dsimp only
    split_ifs
    · rfl
    · exact EdgePoll.notify_interest
  | pollError => exact h.unregister rfl
  | turn =>
    cases hcontrol : p.io.control with
    | removing fd =>
      have hpoll : p.pollAfter = p.unregister fd := by rw [pollAfter, hcontrol]
      exact h.unregister hpoll
    | _ =>
      have hpoll : p.pollAfter = p.poll := by rw [pollAfter, hcontrol]
      exact h.congr (congrArg EdgePoll.interest hpoll)
  | @accept fd pollAdd =>
    cases pollAdd with
    | false => exact h.congr rfl
    | true => exact h.set rfl
  | @setPollout fd =>
    cases hinterest : p.poll.interest fd with
    | none =>
      have hpoll : p.setSocketPollout fd = p.poll := by rw [setSocketPollout, hinterest]
      exact h.congr (congrArg EdgePoll.interest hpoll)
    | some ks =>
      have hpoll : p.setSocketPollout fd = p.poll.set p.level fd (pollMask true) := by rw [setSocketPollout, hinterest]
      exact h.set hpoll
  | register => exact h.set rfl
  | _ => exact h.congr rfl

/-! ### Where the io thread stands -/

/-- The io thread is busy with the socket under the descriptor. -/
def AtSocket (p : Polled cap sendCap) (fd : ℤ) : Prop :=
  p.io.control = .removing fd ∨ ∃ k, awaited p.io.control = some (fd, k)

/-- The io thread is busy with sockets of the table, while it handles events. -/
structure Looping (p : Polled cap sendCap) : Prop where
  known : ∀ fd, p.AtSocket fd → p.io.Known fd
  handling : p.io.control ≠ .idle → ∃ events, p.stage = .handling events

theorem not_atSocket_of_idle (h : p.io.control = .idle) : ¬ p.AtSocket fd := by
  rw [AtSocket, h]
  simp [awaited]

theorem looping_of_idle (h : p.io.control = .idle) : p.Looping :=
  ⟨fun _ hat => absurd hat (not_atSocket_of_idle h), fun hbusy => absurd h hbusy⟩

theorem Looping.keeps (h : p.Looping) (hcontrol : p'.io.control = p.io.control) (hstage : p'.stage = p.stage)
    (hknown : ∀ fd, p.io.Known fd → p'.io.Known fd) : p'.Looping where
  known fd hat := by
    rw [AtSocket, hcontrol] at hat
    exact hknown fd (h.known fd hat)
  handling hbusy := by
    rw [hcontrol] at hbusy
    rw [hstage]
    exact h.handling hbusy

/-- The io thread is at a socket of the table. -/
theorem looping_at (hknown : p.io.Known fd) (hat : ∀ fd', p.AtSocket fd' → fd' = fd)
    (hstage : ∃ events, p.stage = .handling events) : p.Looping :=
  ⟨fun fd' hfd' => hat fd' hfd' ▸ hknown, fun _ => hstage⟩

theorem eq_of_awaited {k : PollCondition} (h : awaited p.io.control = some (fd, k)) {fd' : ℤ} (hat : p.AtSocket fd') : fd' = fd := by
  rcases hat with hremoving | ⟨k', hk'⟩
  · rw [hremoving] at h
    cases h
  · rw [h, Option.some_inj] at hk'
    exact (congrArg Prod.fst hk').symm

theorem eq_of_removing (h : p.io.control = .removing fd) {fd' : ℤ} (hat : p.AtSocket fd') : fd' = fd := by
  rcases hat with hremoving | ⟨k', hk'⟩
  · rw [h] at hremoving
    exact (IoControl.removing.inj hremoving).symm
  · rw [h] at hk'
    cases hk'

theorem Looping.step (h : p.Looping) (haborted : p.io.aborted = false) (hstep : Step maxPackageSize p e p')
    (halive : p'.io.aborted = false) : p'.Looping := by
  have hidle (hstage : ∀ events, p.stage ≠ .handling events) : p.io.control = .idle := by
    by_contra hbusy
    obtain ⟨events, hevents⟩ := h.handling hbusy
    exact hstage events hevents
  cases hstep with
  | wait hstage => exact looping_of_idle (hidle (by simp [hstage]))
  | finish hcontrol => exact looping_of_idle hcontrol
  | skip hcontrol => exact looping_of_idle hcontrol
  | check hstage => exact looping_of_idle (hidle (by simp [hstage]))
  | wakeup hstage => exact looping_of_idle (hidle (by simp [hstage]))
  | @pollError fd events rest io' hcontrol _ _ hio =>
    have hremove := IoThread.step_pollError haborted hcontrol hio halive
    exact looping_of_idle ((IoThread.removeSocket_table hremove fd).1.trans hcontrol)
  | pollIn hcontrol _ _ _ hio =>
    obtain rfl := IoThread.step_pollIn haborted hcontrol hio
    obtain ⟨hkeeps, ⟨-, hsame⟩ | ⟨hknown, hawaited⟩⟩ := IoThread.readSocket_table halive
    · exact looping_of_idle (hsame.trans hcontrol)
    · exact looping_at ((hkeeps.known _).2 hknown) (fun _ => eq_of_awaited hawaited) ⟨_, rfl⟩
  | pollOut hcontrol _ _ _ hio =>
    obtain rfl := IoThread.step_pollOut haborted hcontrol hio
    obtain ⟨hkeeps, ⟨-, hsame⟩ | ⟨hknown, hawaited⟩⟩ := IoThread.writeSocket_table halive
    · exact looping_of_idle (hsame.trans hcontrol)
    · exact looping_at ((hkeeps.known _).2 hknown) (fun _ => eq_of_awaited hawaited) ⟨_, rfl⟩
  | turn _ hio =>
    rcases ioTurn_cases (IoThread.step_turn haborted hio) with ⟨fd, s, hcontrol, hs, rfl⟩ | ⟨fd, s, hcontrol, hs, rfl⟩ |
      ⟨fd, hcontrol, rfl | ⟨io₁, hremove, rfl⟩⟩
    · have hstage := h.handling (by simp [hcontrol])
      obtain ⟨hkeeps, hread | hremoving | ⟨hdone, -⟩⟩ := @IoThread.readTurn_table _ _ maxPackageSize _ _ _ hs
      · exact h.keeps (hread.trans hcontrol.symm) rfl fun fd => (hkeeps.known fd).2
      · exact looping_at ((hkeeps.known fd).2 (by simp [IoThread.Known, hs])) (fun _ => eq_of_removing hremoving) hstage
      · exact looping_of_idle hdone
    · have hstage := h.handling (by simp [hcontrol])
      obtain ⟨hkeeps, hwrite | hremoving | ⟨hdone, -⟩⟩ := IoThread.writeTurn_table hs
      · exact h.keeps (hwrite.trans hcontrol.symm) rfl fun fd => (hkeeps.known fd).2
      · exact looping_at ((hkeeps.known fd).2 (by simp [IoThread.Known, hs])) (fun _ => eq_of_removing hremoving) hstage
      · exact looping_of_idle hdone
    · cases halive
    · exact looping_of_idle rfl
  | accept _ hio =>
    obtain ⟨-, rfl⟩ := IoThread.step_accept haborted hio
    obtain ⟨hcontrol, ⟨-, hkeeps⟩ | ⟨-, hadds⟩⟩ := IoThread.acceptSocket_table halive
    · exact h.keeps hcontrol rfl fun fd => (hkeeps.known fd).2
    · exact h.keeps hcontrol rfl fun fd hknown => (hadds.known fd).2 (.inr hknown)
  | acceptDone _ hio => exact looping_of_idle (IoThread.step_acceptDone haborted hio).2.2.1
  | pop _ hio =>
    obtain ⟨hsockets, hcontrol⟩ := IoThread.step_pop haborted hio
    exact h.keeps hcontrol rfl fun fd => ((IoThread.keeps_of_sockets hsockets).known fd).2
  | handled _ hio =>
    obtain ⟨hsockets, hcontrol, -⟩ := IoThread.step_handled haborted hio
    exact h.keeps hcontrol rfl fun fd => ((IoThread.keeps_of_sockets hsockets).known fd).2
  | respond _ hio =>
    obtain ⟨hsockets, hcontrol, -⟩ := IoThread.step_respond haborted hio
    exact h.keeps hcontrol rfl fun fd => ((IoThread.respond_table hsockets).1 fd).2
  | newSocket _ he' hio =>
    obtain ⟨type, recvs, sends, rfl⟩ := IoThread.step_newSocket haborted he' hio
    obtain ⟨hcontrol, hadds⟩ := IoThread.newSocket_table halive
    exact h.keeps hcontrol rfl fun fd hknown => (hadds.known fd).2 (.inr hknown)
  | _ => exact h.keeps rfl rfl fun _ => id

/-! ### What is looked after -/

/-- The io thread goes on to the condition: it is busy with it, or has it among its events, or removes the socket. -/
def Attended (p : Polled cap sendCap) (fd : ℤ) (k : PollCondition) : Prop :=
  p.io.control = .removing fd ∨ awaited p.io.control = some (fd, k) ∨ ∃ events, (fd, events) ∈ p.stage.events ∧ events k = true

/-- There is nothing to send, or the worker has still to set `EPOLLOUT`. -/
def Unneeded (p : Polled cap sendCap) (fd : ℤ) (k : PollCondition) : Prop :=
  k = .pollout ∧ (p.call = .responding fd ∨ ¬ p.io.Unsent fd)

/-- The step drops an event, or leaves connections behind that could be accepted. -/
def Drops (p : Polled cap sendCap) : PolledEvent → Prop
  | .next => ∃ fd events rest, p.stage = .handling ((fd, events) :: rest) ∧ ¬ p.io.Known fd ∧ p.poll.interest fd ≠ none ∧
      (events .pollerr = true ∨ events .pollin = true)
  | .acceptDone wouldblock => wouldblock = false ∧ ∃ fd, p.io.control = .accepting fd ∧ p.level fd .pollin = true
  | _ => False

/-- Of these conditions, each one that is watched and holds is about to be reported, or is looked after, or unneeded. -/
def Covered (K : PollCondition → Prop) (p : Polled cap sendCap) : Prop :=
  p.poll.Covers p.level fun fd k => K k → p.Attended fd k ∨ p.Unneeded fd k

variable {K : PollCondition → Prop} {k : PollCondition}

theorem level_of_levelAfter {ends : Bool} (h : p.levelAfter ends fd k = true) : p.level fd k = true := by
  cases hawaited : awaited p.io.control with
  | none =>
    rw [levelAfter, hawaited] at h
    exact h
  | some x =>
    rw [levelAfter, hawaited] at h
    dsimp only at h
    split_ifs at h
    · exact (EdgePoll.level_of_setLevel_false h).1
    · exact h

theorem attended_congr (hcontrol : p'.io.control = p.io.control) (hstage : p'.stage.events = p.stage.events) :
    p'.Attended fd k ↔ p.Attended fd k := by
  rw [Attended, Attended, hcontrol, hstage]

theorem Attended.event (h : p.Attended fd k) (hidle : p.io.control = .idle) :
    ∃ events, (fd, events) ∈ p.stage.events ∧ events k = true := by
  rcases h with hremoving | hawaited | hevents
  · rw [hidle] at hremoving
    cases hremoving
  · rw [hidle] at hawaited
    cases hawaited
  · exact hevents

/-- At the first event: it is about the condition, or a later one is. -/
theorem Attended.head {events : PollCondition → Bool} {rest : List PollEvent} {fd₁ : ℤ} (h : p.Attended fd k)
    (hidle : p.io.control = .idle) (hstage : p.stage = .handling ((fd₁, events) :: rest)) :
    (fd = fd₁ ∧ events k = true) ∨ ∃ events, (fd, events) ∈ rest ∧ events k = true := by
  obtain ⟨events', hmem, hk⟩ := h.event hidle
  rw [hstage, IoStage.events, List.mem_cons] at hmem
  rcases hmem with heq | hmem
  · obtain ⟨rfl, rfl⟩ := Prod.mk.inj heq
    exact .inl ⟨rfl, hk⟩
  · exact .inr ⟨events', hmem, hk⟩

theorem Unneeded.mono (h : p.Unneeded fd k) (hcall : ∀ fd, p.call = .responding fd → p'.call = .responding fd)
    (hunsent : ∀ fd, p'.io.Unsent fd → p.io.Unsent fd) : p'.Unneeded fd k :=
  ⟨h.1, h.2.imp (hcall fd) fun hnot hunsent' => hnot (hunsent fd hunsent')⟩

theorem unneeded_of_not_known (h : ¬ p.io.Known fd) : p.Unneeded fd .pollout :=
  ⟨rfl, .inr fun hunsent => h hunsent.known⟩

/-- A step that leaves the poll set alone. -/
theorem Covered.lower (h : p.Covered K) (hpoll : p'.poll = p.poll) (hlevel : ∀ fd k, p'.level fd k = true → p.level fd k = true)
    (hattended : ∀ fd k, p.poll.report p'.level fd k → K k → p.Attended fd k → p'.Attended fd k ∨ p'.Unneeded fd k)
    (hunneeded : ∀ fd k, p.Unneeded fd k → p'.Unneeded fd k) : p'.Covered K := by
  rw [Covered, hpoll]
  refine EdgePoll.Covers.lower h hlevel fun fd k hreport hseen hk => ?_
  exact (hseen hk).elim (hattended fd k hreport hk) fun hunneeded' => .inr (hunneeded fd k hunneeded')

/-- The io thread does not move. -/
theorem Covered.congr (h : p.Covered K) (hpoll : p'.poll = p.poll) (hlevel : p'.level = p.level)
    (hcontrol : p'.io.control = p.io.control) (hstage : p'.stage.events = p.stage.events)
    (hunneeded : ∀ fd k, p.Unneeded fd k → p'.Unneeded fd k) : p'.Covered K :=
  h.lower hpoll (fun fd k => by rw [hlevel]; exact id) (fun _ _ _ _ hattended => .inl ((attended_congr hcontrol hstage).2 hattended))
    hunneeded

/-- A socket is removed. -/
theorem Covered.remove (h : p.Covered K) (hpoll : p'.poll = p.poll.remove fd) (hlevel : p'.level = p.level)
    (hcall : p'.call = p.call) (hunsent : ∀ fd, p'.io.Unsent fd → p.io.Unsent fd)
    (hattended : ∀ fd' k, fd' ≠ fd → p.Attended fd' k → p'.Attended fd' k) : p'.Covered K := by
  rw [Covered, hpoll, hlevel]
  refine EdgePoll.Covers.remove h fun fd' k hne hseen hk => (hseen hk).imp (hattended fd' k hne) fun hunneeded => ?_
  exact hunneeded.mono (fun _ hresponding => hcall.trans hresponding) hunsent

theorem removeSocket_of_not_known {io' : IoThread cap sendCap} (h : p.io.removeSocket fd = some io') (hknown : ¬ p.io.Known fd) :
    io' = p.io := by
  have hnone : p.io.sockets fd = none := not_not.1 hknown
  rw [IoThread.removeSocket, hnone] at h
  split_ifs at h
  exact (Option.some.inj h).symm

theorem Covered.pollError {events : PollCondition → Bool} {rest : List PollEvent} {io' : IoThread cap sendCap}
    (h : p.Covered K) (hdrops : ∀ k, K k → k ≠ .pollout → ¬ p.Drops .next) (hidle : p.io.control = .idle)
    (hstage : p.stage = .handling ((fd, events) :: rest)) (hevent : events .pollerr = true)
    (hremove : p.io.removeSocket fd = some io') :
    Covered K { p with io := io', poll := p.unregister fd, stage := .handling rest } := by
  by_cases hknown : p.io.Known fd
  · refine h.remove (unregister_of_known hknown) rfl rfl (fun fd' hunsent => ?_) fun fd' k hne hattended => .inr (.inr ?_)
    · exact ((IoThread.removeSocket_table hremove fd').2.2 hunsent).1
    · exact (hattended.head hidle hstage).resolve_left fun heq => hne heq.1
  · obtain rfl := removeSocket_of_not_known hremove hknown
    refine h.lower (unregister_of_not_known hknown) (fun _ _ => id) (fun fd' k hreport hk hattended => ?_) fun _ _ => id
    obtain ⟨ks, hks, -⟩ := EdgePoll.report_iff.1 hreport
    rcases hattended.head hidle hstage with ⟨rfl, -⟩ | hrest
    · -- Nobody but the io thread would look at the event.
      by_cases hout : k = .pollout
      · exact .inr (hout ▸ unneeded_of_not_known hknown)
      · exact absurd ⟨fd', events, rest, hstage, hknown, by simp [hks], .inl hevent⟩ (hdrops k hk hout)
    · exact .inl (.inr (.inr hrest))

theorem Covered.pollIn {events : PollCondition → Bool} {rest : List PollEvent} (h : p.Covered K)
    (hdrops : ∀ k, K k → k ≠ .pollout → ¬ p.Drops .next) (hidle : p.io.control = .idle)
    (hstage : p.stage = .handling ((fd, events) :: rest)) (hevent : events .pollin = true)
    (halive : (p.io.readSocket fd).aborted = false) :
    Covered K { p with io := p.io.readSocket fd, stage := .handling ((fd, Function.update events .pollin false) :: rest) } := by
  obtain ⟨hkeeps, hcontrol⟩ := IoThread.readSocket_table halive
  refine h.lower rfl (fun _ _ => id) (fun fd' k hreport hk hattended => ?_) fun fd' k hunneeded =>
    hunneeded.mono (fun _ => id) hkeeps.unsent
  obtain ⟨ks, hks, -⟩ := EdgePoll.report_iff.1 hreport
  rcases hattended.head hidle hstage with ⟨rfl, hhead⟩ | ⟨events', hmem, hk'⟩
  · by_cases hin : k = .pollin
    · subst hin
      rcases hcontrol with ⟨hknown, -⟩ | ⟨-, hawaited⟩
      · exact absurd ⟨fd', events, rest, hstage, hknown, by simp [hks], .inr hevent⟩ (hdrops .pollin hk (by decide))
      · exact .inl (.inr (.inl hawaited))
    · exact .inl (.inr (.inr ⟨_, List.mem_cons_self, by rwa [Function.update_of_ne hin]⟩))
  · exact .inl (.inr (.inr ⟨events', List.mem_cons_of_mem _ hmem, hk'⟩))

theorem Covered.pollOut {events : PollCondition → Bool} {rest : List PollEvent} (h : p.Covered K)
    (hidle : p.io.control = .idle) (hstage : p.stage = .handling ((fd, events) :: rest)) (herror : events .pollerr = false)
    (hin : events .pollin = false) (halive : (p.io.writeSocket fd).aborted = false) :
    Covered K { p with io := p.io.writeSocket fd, stage := .handling rest } := by
  obtain ⟨hkeeps, hcontrol⟩ := IoThread.writeSocket_table halive
  refine h.lower rfl (fun _ _ => id) (fun fd' k _ _ hattended => ?_) fun fd' k hunneeded =>
    hunneeded.mono (fun _ => id) hkeeps.unsent
  rcases hattended.head hidle hstage with ⟨rfl, hhead⟩ | hrest
  · cases k with
    | pollerr => simp [herror] at hhead
    | pollin => simp [hin] at hhead
    | pollout =>
      rcases hcontrol with ⟨hknown, -⟩ | ⟨-, hawaited⟩
      · exact .inr (unneeded_of_not_known fun hknown' => hknown ((hkeeps.known fd').1 hknown'))
      · exact .inl (.inr (.inl hawaited))
  · exact .inl (.inr (.inr hrest))

/-- A loop goes on, or is done with its condition, or removes the socket. -/
theorem Covered.loop {io' : IoThread cap sendCap} {ends : Bool} {k₁ : PollCondition} (h : p.Covered K)
    (hawaited : awaited p.io.control = some (fd, k₁)) (hkeeps : p.io.Keeps io')
    (hnext : awaited io'.control = some (fd, k₁) ∨ io'.control = .removing fd ∨ (k₁ = .pollout ∧ ¬ io'.Unsent fd) ∨
      p.levelAfter ends fd k₁ = false) :
    Covered K { p with io := io', level := p.levelAfter ends } := by
  refine h.lower rfl (fun _ _ => level_of_levelAfter) (fun fd' k hreport _ hattended => ?_) fun fd' k hunneeded =>
    hunneeded.mono (fun _ => id) hkeeps.unsent
  obtain ⟨ks, -, -, hlevel⟩ := EdgePoll.report_iff.1 hreport
  rcases hattended with hremoving | hsame | hevents
  · rw [hremoving] at hawaited
    cases hawaited
  · rw [hawaited, Option.some_inj] at hsame
    obtain ⟨rfl, rfl⟩ := Prod.mk.inj hsame
    rcases hnext with hgoes | hremoves | hunneeded | hends
    · exact .inl (.inr (.inl hgoes))
    · exact .inl (.inl hremoves)
    · exact .inr ⟨hunneeded.1, .inr hunneeded.2⟩
    · exact absurd hlevel (Bool.eq_false_iff.1 hends)
  · exact .inl (.inr (.inr hevents))

theorem Covered.turn {io' : IoThread cap sendCap} {ends : Bool} (h : p.Covered K) (hlooping : p.Looping)
    (hcoherent : p.Coherent (p.wouldBlock maxPackageSize) (p.levelAfter ends)) (hturn : p.io.ioTurn maxPackageSize = some io')
    (halive : io'.aborted = false) : Covered K { p with io := io', level := p.levelAfter ends, poll := p.pollAfter } := by
  rcases ioTurn_cases hturn with ⟨fd, s, hcontrol, hs, rfl⟩ | ⟨fd, s, hcontrol, hs, rfl⟩ |
    ⟨fd, hcontrol, rfl | ⟨io₁, hremove, rfl⟩⟩
  · have hpoll : p.pollAfter = p.poll := by rw [pollAfter, hcontrol]
    have hawaited : awaited p.io.control = some (fd, .pollin) := by rw [hcontrol]; rfl
    obtain ⟨hkeeps, hnext⟩ := @IoThread.readTurn_table _ _ maxPackageSize _ _ _ hs
    rw [hpoll]
    refine h.loop hawaited hkeeps ?_
    rcases hnext with hread | hremoving | ⟨-, hblock⟩
    · exact .inl (by rw [hread]; rfl)
    · exact .inr (.inl hremoving)
    · -- `recv` would block, so there is nothing to read.
      have hwould : p.wouldBlock maxPackageSize = true := by
        rw [wouldBlock, hcontrol]
        dsimp only
        rw [hs]
        exact decide_eq_true hblock
      exact .inr (.inr (.inr (hcoherent hwould _ hawaited)))
  · have hpoll : p.pollAfter = p.poll := by rw [pollAfter, hcontrol]
    have hawaited : awaited p.io.control = some (fd, .pollout) := by rw [hcontrol]; rfl
    obtain ⟨hkeeps, hnext⟩ := IoThread.writeTurn_table hs
    rw [hpoll]
    refine h.loop hawaited hkeeps ?_
    rcases hnext with hwrite | hremoving | ⟨-, hdrained | hblock⟩
    · exact .inl (by rw [hwrite]; rfl)
    · exact .inr (.inl hremoving)
    · exact .inr (.inr (.inl ⟨rfl, hdrained⟩))
    · have hwould : p.wouldBlock maxPackageSize = true := by
        rw [wouldBlock, hcontrol]
        dsimp only
        rw [hs]
        exact decide_eq_true hblock
      exact .inr (.inr (.inr (hcoherent hwould _ hawaited)))
  · cases halive
  · have hknown : p.io.Known fd := hlooping.known fd (.inl hcontrol)
    have hpoll : p.pollAfter = p.poll.remove fd := by rw [pollAfter, hcontrol]; exact unregister_of_known hknown
    have hlevel : p.levelAfter ends = p.level := by rw [levelAfter, hcontrol]; rfl
    rw [hpoll, hlevel]
    refine h.remove rfl rfl rfl (fun fd' hunsent => ((IoThread.removeSocket_table hremove fd').2.2 hunsent).1) ?_
    rintro fd' k hne (hremoving | hawaited | hevents)
    · rw [hcontrol] at hremoving
      exact absurd (IoControl.removing.inj hremoving).symm hne
    · rw [hcontrol] at hawaited
      cases hawaited
    · exact .inr (.inr hevents)

/-- Connections are accepted, at the descriptor of a server. -/
theorem Covered.accept {pollAdd : Bool} {conditions : PollCondition → Bool} {recvs : List RecvAnswer} {sends : List SendAnswer}
    {ends : Bool} (h : p.Covered K) (hnew : p.poll.interest fd = none)
    (halive : (p.io.acceptSocket fd recvs sends pollAdd).aborted = false) :
    Covered K { p with
      io := p.io.acceptSocket fd recvs sends pollAdd
      level := Function.update (p.levelAfter ends) fd conditions
      poll := if pollAdd then p.poll.set (Function.update (p.levelAfter ends) fd conditions) fd (pollMask false) else p.poll } := by
  obtain ⟨hcontrol, htable⟩ := IoThread.acceptSocket_table halive
  have hunsent : ∀ fd', (p.io.acceptSocket fd recvs sends pollAdd).Unsent fd' → p.io.Unsent fd' :=
    htable.elim (fun hkeeps => hkeeps.2.unsent) fun hadds => hadds.2.unsent
  -- The io thread stays in its loop, and the new descriptor has not been watched.
  have hcovered : p.poll.Covers (p.levelAfter ends) fun fd' k => K k →
      Attended { p with io := p.io.acceptSocket fd recvs sends pollAdd } fd' k ∨
        Unneeded { p with io := p.io.acceptSocket fd recvs sends pollAdd } fd' k :=
    EdgePoll.Covers.lower h (fun _ _ => level_of_levelAfter) fun fd' k _ hseen hk =>
      (hseen hk).imp (Iff.mpr (attended_congr hcontrol rfl)) fun hunneeded : p.Unneeded fd' k =>
        hunneeded.mono (fun _ => id) hunsent
  have hlevel (fd' : ℤ) (hne : fd' ≠ fd) : Function.update (p.levelAfter ends) fd conditions fd' = p.levelAfter ends fd' :=
    Function.update_of_ne hne ..
  cases pollAdd with
  | false =>
    intro fd' k hreport
    obtain ⟨ks, hks, hk, hholds⟩ := EdgePoll.report_iff.1 hreport
    have hne : fd' ≠ fd := by
      rintro rfl
      exact absurd (hks.symm.trans hnew) (by simp)
    dsimp only at hholds
    rw [hlevel fd' hne] at hholds
    exact hcovered fd' k (EdgePoll.report_iff.2 ⟨ks, hks, hk, hholds⟩)
  | true => exact hcovered.set_level hlevel fun _ _ _ => id

theorem Covered.step (h : p.Covered K) (hlooping : p.Looping) (haborted : p.io.aborted = false)
    (hdrops : ∀ k, K k → k ≠ .pollout → ¬ p.Drops e) (hstep : Step maxPackageSize p e p') (halive : p'.io.aborted = false) :
    p'.Covered K := by
  have hidle (hstage : ∀ events, p.stage ≠ .handling events) : p.io.control = .idle := by
    by_contra hbusy
    obtain ⟨events, hevents⟩ := hlooping.handling hbusy
    exact hstage events hevents
  cases hstep with
  | rise fd k again => exact EdgePoll.Covers.rise h again
  | @wait fds hstage =>
    refine EdgePoll.Covers.wait h fun fd k hreport hseen hk => ?_
    rcases hseen with hmem | hseen
    · exact .inl (.inr (.inr ⟨_, List.mem_map_of_mem hmem, hreport⟩))
    · refine (hseen hk).imp (fun hattended => ?_) id
      obtain ⟨events, hmem, -⟩ := hattended.event (hidle (by simp [hstage]))
      rw [hstage] at hmem
      cases hmem
  | finish _ hstage => exact h.congr rfl rfl rfl (by rw [hstage]; rfl) fun _ _ => id
  | pollError hcontrol hstage hevent hio =>
    exact h.pollError hdrops hcontrol hstage hevent (IoThread.step_pollError haborted hcontrol hio halive)
  | pollIn hcontrol hstage _ hevent hio =>
    obtain rfl := IoThread.step_pollIn haborted hcontrol hio
    exact h.pollIn hdrops hcontrol hstage hevent halive
  | pollOut hcontrol hstage herror hin hio =>
    obtain rfl := IoThread.step_pollOut haborted hcontrol hio
    exact h.pollOut hcontrol hstage herror hin halive
  | skip hcontrol hstage hevents =>
    refine h.lower rfl (fun _ _ => id) (fun fd k _ _ hattended => .inl (.inr (.inr ?_))) fun _ _ => id
    refine (hattended.head hcontrol hstage).resolve_left fun heq => ?_
    rw [hevents k] at heq
    cases heq.2
  | turn hcoherent hio => exact h.turn hlooping hcoherent (IoThread.step_turn haborted hio) halive
  | accept hnew hio =>
    obtain ⟨-, rfl⟩ := IoThread.step_accept haborted hio
    exact h.accept hnew halive
  | @acceptDone wouldblock io' hcoherent hio =>
    obtain ⟨⟨fd₁, hcontrol⟩, hsockets, -, -⟩ := IoThread.step_acceptDone haborted hio
    have hkeeps := IoThread.keeps_of_sockets hsockets
    refine h.lower rfl (fun _ _ => id) (fun fd k hreport hk hattended => ?_) fun fd k hunneeded =>
      hunneeded.mono (fun _ => id) hkeeps.unsent
    obtain ⟨ks, -, -, hlevel⟩ := EdgePoll.report_iff.1 hreport
    rcases hattended with hremoving | hawaited | hevents
    · rw [hcontrol] at hremoving
      cases hremoving
    · -- Either there is no connection left, or the ones that are left are dropped.
      have hsame : fd₁ = fd ∧ PollCondition.pollin = k := by
        rw [hcontrol] at hawaited
        exact Prod.mk.inj (Option.some.inj hawaited)
      obtain ⟨rfl, rfl⟩ := hsame
      cases wouldblock with
      | true => exact absurd hlevel (Bool.eq_false_iff.1 (hcoherent rfl _ hawaited))
      | false => exact absurd ⟨rfl, fd₁, hcontrol, hlevel⟩ (hdrops .pollin hk (by decide))
    · exact .inl (.inr (.inr hevents))
  | check hstage =>
    refine h.congr rfl rfl rfl ?_ fun _ _ => id
    rw [hstage]
    dsimp only
    split_ifs <;> rfl
  | wakeup hstage => exact h.congr rfl rfl rfl (by rw [hstage]; rfl) fun _ _ => id
  | pop _ hio =>
    obtain ⟨hsockets, hcontrol⟩ := IoThread.step_pop haborted hio
    exact h.congr rfl rfl hcontrol rfl fun _ _ hunneeded =>
      hunneeded.mono (fun _ => id) (IoThread.keeps_of_sockets hsockets).unsent
  | handled _ hio =>
    obtain ⟨hsockets, hcontrol, -⟩ := IoThread.step_handled haborted hio
    exact h.congr rfl rfl hcontrol rfl fun _ _ hunneeded =>
      hunneeded.mono (fun _ => id) (IoThread.keeps_of_sockets hsockets).unsent
  | @respond fd msgid payload io' hlua hio =>
    obtain ⟨hsockets, hcontrol, -⟩ := IoThread.step_respond haborted hio
    obtain ⟨-, hunsent⟩ := IoThread.respond_table hsockets
    refine h.congr rfl rfl hcontrol rfl fun fd' k hunneeded => ⟨hunneeded.1, ?_⟩
    -- What is pushed now is sent when the worker has set `EPOLLOUT`.
    by_cases hunsent' : io'.Unsent fd'
    · rcases hunsent fd' hunsent' with hbefore | ⟨rfl, hpushes⟩
      · refine .inl (absurd hbefore (hunneeded.2.resolve_left fun hcall => ?_))
        rw [hlua.1] at hcall
        cases hcall
      · exact .inl (if_pos hpushes)
    · exact .inr hunsent'
  | @setPollout fd hcall =>
    have hseen (fd' : ℤ) (k : PollCondition) (hne : fd' ≠ fd) (hunneeded : p.Unneeded fd' k) :
        Unneeded { p with poll := p.setSocketPollout fd, call := .none } fd' k := by
      refine ⟨hunneeded.1, .inr (hunneeded.2.resolve_left fun hcall' => hne ?_)⟩
      rw [hcall] at hcall'
      exact (WorkerCall.responding.inj hcall').symm
    cases hinterest : p.poll.interest fd with
    | none =>
      have hpoll : p.setSocketPollout fd = p.poll := by rw [setSocketPollout, hinterest]
      intro fd' k hreport
      dsimp only at hreport ⊢
      rw [hpoll] at hreport ⊢
      obtain ⟨ks, hks, -⟩ := EdgePoll.report_iff.1 hreport
      have hne : fd' ≠ fd := by
        rintro rfl
        exact absurd (hks.symm.trans hinterest) (by simp)
      exact (h fd' k hreport).imp_right fun hold hk => (hold hk).imp id (hseen fd' k hne)
    | some ks =>
      have hpoll : p.setSocketPollout fd = p.poll.set p.level fd (pollMask true) := by rw [setSocketPollout, hinterest]
      rw [Covered]
      dsimp only
      rw [hpoll]
      exact EdgePoll.Covers.set h fun fd' k hne hold hk => (hold hk).imp id (hseen fd' k hne)
  | @register fd conditions hlua hnew =>
    refine EdgePoll.Covers.set_level h (fun fd' hne => Function.update_of_ne hne ..) fun fd' k hne hold hk =>
      (hold hk).imp id fun hunneeded => ⟨hunneeded.1, .inr (hunneeded.2.resolve_left fun hcall => ?_)⟩
    rw [hlua.1] at hcall
    cases hcall
  | newSocket hcall he' hio =>
    obtain ⟨type, recvs, sends, rfl⟩ := IoThread.step_newSocket haborted he' hio
    obtain ⟨hcontrol, hadds⟩ := IoThread.newSocket_table halive
    refine h.congr rfl rfl hcontrol rfl fun fd' k hunneeded => ⟨hunneeded.1, .inr fun hunsent => ?_⟩
    refine hunneeded.2.elim (fun hcall' => ?_) fun hnot => hnot (hadds.unsent fd' hunsent)
    rw [hcall] at hcall'
    cases hcall'
  | _ => exact h.congr rfl rfl rfl rfl fun _ _ => id

/-! ### The worker is woken -/

/-- While there is a message for the worker, the io thread goes on to check, or the worker is woken or awake. -/
def Announced (p : Polled cap sendCap) : Prop :=
  p.io.mq.items ≠ [] → p.stage ≠ .waiting ∨ p.wakeup.ready () = true ∨ p.worker = .draining

theorem Announced.keeps (h : p.Announced) (hmq : p'.io.mq = p.io.mq) (hstage : p'.stage = p.stage) (hwakeup : p'.wakeup = p.wakeup)
    (hworker : p'.worker = p.worker) : p'.Announced := by
  rw [Announced, hmq, hstage, hwakeup, hworker]
  exact h

theorem announced_of_handling (h : ∃ events, p.stage = .handling events) : p.Announced := by
  obtain ⟨events, hstage⟩ := h
  exact fun _ => .inl (by simp [hstage])

theorem Announced.step (h : p.Announced) (hlooping : p.Looping) (haborted : p.io.aborted = false)
    (hstep : Step maxPackageSize p e p') : p'.Announced := by
  cases hstep with
  | wait => exact announced_of_handling ⟨_, rfl⟩
  | finish => exact fun _ => .inl (by simp)
  | pollError => exact announced_of_handling ⟨_, rfl⟩
  | pollIn => exact announced_of_handling ⟨_, rfl⟩
  | pollOut => exact announced_of_handling ⟨_, rfl⟩
  | skip => exact announced_of_handling ⟨_, rfl⟩
  | turn _ hio =>
    -- The io thread pushes only while it handles events.
    refine announced_of_handling (hlooping.handling fun hidle => ?_)
    rcases ioTurn_cases (IoThread.step_turn haborted hio) with ⟨fd, s, hcontrol, -⟩ | ⟨fd, s, hcontrol, -⟩ | ⟨fd, hcontrol, -⟩
    all_goals
      rw [hidle] at hcontrol
      cases hcontrol
  | accept _ hio =>
    obtain ⟨⟨fd, hcontrol⟩, -⟩ := IoThread.step_accept haborted hio
    exact announced_of_handling (hlooping.handling (by simp [hcontrol]))
  | acceptDone _ hio => exact h.keeps (IoThread.step_acceptDone haborted hio).2.2.2 rfl rfl rfl
  | check hstage =>
    intro hmq
    refine .inl ?_
    dsimp only at hmq ⊢
    rw [if_neg hmq]
    simp
  | wakeup => exact fun _ => .inr (.inl (EdgePoll.ready_set (k := .pollout) rfl rfl))
  | workerWait => exact fun _ => .inr (.inr rfl)
  | pop hworker hio => exact fun _ => .inr (.inr hworker)
  | handled _ hio => exact h.keeps (IoThread.step_handled haborted hio).2.2 rfl rfl rfl
  | drained _ hmq => exact fun hne => absurd hmq hne
  | sleep hworker =>
    intro hmq
    refine (h hmq).imp_right fun hawake => .inl (hawake.resolve_right fun hdraining => ?_)
    rw [hworker] at hdraining
    cases hdraining
  | respond _ hio => exact h.keeps (IoThread.step_respond haborted hio).2.2 rfl rfl rfl
  | newSocket _ he' hio =>
    obtain ⟨type, recvs, sends, rfl⟩ := IoThread.step_newSocket haborted he' hio
    exact h.keeps (IoThread.newSocket_mq type recvs sends true) rfl rfl rfl
  | _ => exact h.keeps rfl rfl rfl rfl

/-! ### Runs -/

/-- What the two threads keep, as long as no assertion fails. -/
structure Sound (K : PollCondition → Prop) (p : Polled cap sendCap) : Prop where
  registered : p.Registered
  masked : p.Masked
  looping : p.Looping
  covered : p.Covered K
  announced : p.Announced

theorem sound_new (K : PollCondition → Prop) (fdIo : ℤ) : (new cap sendCap fdIo).Sound K where
  registered := ⟨fun fd hknown => absurd rfl hknown, fun fd hunsent => absurd rfl hunsent.known, fun fd hadding => by cases hadding⟩
  masked fd ks hks := by
    by_cases heq : fd = fdIo
    · subst heq
      have hself : (new cap sendCap fd).poll.interest fd = some (pollMask false) := Function.update_self ..
      rw [hself, Option.some_inj] at hks
      exact ⟨false, hks.symm⟩
    · have hnone : (new cap sendCap fdIo).poll.interest fd = none := Function.update_of_ne heq ..
      rw [hnone] at hks
      cases hks
  looping := looping_of_idle rfl
  covered := EdgePoll.Covers.set EdgePoll.covers_empty fun _ _ _ => id
  announced hmq := absurd rfl hmq

theorem Sound.step (h : p.Sound K) (hdrops : ∀ k, K k → k ≠ .pollout → ¬ p.Drops e)
    (hstep : p.step maxPackageSize e = some p') (halive : p'.io.aborted = false) : p'.Sound K := by
  obtain ⟨haborted, hcases⟩ := step_cases hstep
  exact ⟨h.registered.step haborted hcases halive, h.masked.step hcases, h.looping.step haborted hcases halive,
    h.covered.step h.looping haborted hdrops hcases halive, h.announced.step h.looping haborted hcases⟩

/-- The invariant along a run in which none of these conditions is dropped. -/
theorem sound_of_run {G : Polled cap sendCap → PolledEvent → Prop} (hG : ∀ q e, G q e → ∀ k, K k → k ≠ .pollout → ¬ q.Drops e)
    {fdIo : ℤ} {es : List PolledEvent} (hguard : (system cap sendCap maxPackageSize).Guarded G (new cap sendCap fdIo) es)
    (hrun : (system cap sendCap maxPackageSize).run (new cap sendCap fdIo) es = some p) (halive : p.io.aborted = false) :
    p.Sound K := by
  refine Machine.invariant_of_guarded (I := fun p => p.io.aborted = false → p.Sound K) ?_ (fun _ => sound_new K fdIo) hguard hrun halive
  intro q e q' hq hguard hstep halive'
  exact (hq (step_cases hstep).1).step (hG q e hguard) hstep halive'

/-- About room in the kernel, no event is ever dropped. -/
theorem sound_pollout {fdIo : ℤ} {es : List PolledEvent}
    (hrun : (system cap sendCap maxPackageSize).run (new cap sendCap fdIo) es = some p) (halive : p.io.aborted = false) :
    p.Sound (· = .pollout) := by
  have hguard : (system cap sendCap maxPackageSize).Guarded (fun _ _ => True) (new cap sendCap fdIo) es :=
    Machine.guarded_of_forall fun _ _ => trivial
  exact sound_of_run (fun _ _ _ _ hk hne => absurd hk hne) hguard hrun halive

theorem ready_of_covered (h : p.Sound K) (hwaiting : p.stage = .waiting) (hk : K k) (hreport : p.poll.report p.level fd k = true)
    (hneeded : ¬ p.Unneeded fd k) : p.poll.ready fd = true := by
  have hidle : p.io.control = .idle := by
    by_contra hbusy
    obtain ⟨events, hevents⟩ := h.looping.handling hbusy
    rw [hwaiting] at hevents
    cases hevents
  refine (h.covered fd k hreport).resolve_right fun hseen => ?_
  obtain ⟨events, hmem, -⟩ := ((hseen hk).resolve_right hneeded).event hidle
  rw [hwaiting] at hmem
  cases hmem

/-- **No response is forgotten.** When the io thread sleeps, a descriptor with something to send is watched for room, and
reported as soon as there is some, unless the worker has just pushed the message and not yet set `EPOLLOUT`. -/
theorem pollout_of_unsent {fdIo : ℤ} {es : List PolledEvent}
    (hrun : (system cap sendCap maxPackageSize).run (new cap sendCap fdIo) es = some p) (halive : p.io.aborted = false)
    (hwaiting : p.stage = .waiting) (hunsent : p.io.Unsent fd) (hcall : p.call ≠ .responding fd) :
    p.poll.interest fd = some (pollMask true) ∧ (p.level fd .pollout = true → p.poll.ready fd = true) := by
  have hsound := sound_pollout hrun halive
  have hinterest := (hsound.registered.unsent fd hunsent).resolve_right hcall
  refine ⟨hinterest, fun hlevel => ready_of_covered hsound hwaiting rfl (EdgePoll.report_iff.2 ⟨_, hinterest, rfl, hlevel⟩) ?_⟩
  exact fun hunneeded => hunneeded.2.elim hcall fun hnot => hnot hunsent

/-- A client is put into the table, and something is sent to it. -/
theorem pollout_after_response : ∃ p, (system 2 2 4096).run (new 2 2 5)
      [.register 7 fun k => k = .pollout, .newClient [] [], .respond 7 1 [], .setPollout] = some p ∧
    p.poll.interest 7 = some (pollMask true) ∧ (p.level 7 .pollout = true → p.poll.ready 7 = true) := by
  have hrun : (system 2 2 4096).run (new 2 2 5)
      [.register 7 fun k => k = .pollout, .newClient [] [], .respond 7 1 [], .setPollout] = some _ := rfl
  refine ⟨_, hrun, pollout_of_unsent hrun rfl rfl ⟨_, rfl, ?_⟩ ?_⟩
  · exact List.cons_ne_nil _ _
  · exact fun h => by cases h

/-- A connection that waits before the server is in the table can be forgotten: the io thread ignores what is reported. -/
theorem pollin_forgotten : ∃ p, (system 2 2 4096).run (new 2 2 5)
      [.register 7 fun k => k = .pollin, .wait [7], .next, .next, .next, .check, .newServer] = some p ∧
    p.stage = .waiting ∧ p.io.Known 7 ∧ p.level 7 .pollin = true ∧ p.poll.ready 7 = false := by
  refine ⟨_, rfl, rfl, ?_, rfl, rfl⟩
  exact fun h => by cases h

/-- **No message for the worker is forgotten.** When both threads sleep, the worker is about to be woken. -/
theorem wakeup_of_queued {fdIo : ℤ} {es : List PolledEvent}
    (hrun : (system cap sendCap maxPackageSize).run (new cap sendCap fdIo) es = some p) (halive : p.io.aborted = false)
    (hwaiting : p.stage = .waiting) (hworker : p.worker = .waiting) (hmq : p.io.mq.items ≠ []) : p.wakeup.ready () = true := by
  have hsound := sound_pollout hrun halive
  refine ((hsound.announced hmq).resolve_left (not_not.2 hwaiting)).resolve_right fun hdraining => ?_
  rw [hworker] at hdraining
  cases hdraining

/-- A connection has been accepted while the worker sleeps. -/
theorem wakeup_after_accept : ∃ p, (system 2 2 4096).run (new 2 2 5)
      [.register 7 fun k => k = .pollin, .newServer, .sleep, .wait [7], .next, .accept 8 true (fun _ => false) [] [] true,
        .acceptDone true, .next, .next, .check, .wakeup] = some p ∧ p.wakeup.ready () = true := by
  have hrun : (system 2 2 4096).run (new 2 2 5)
      [.register 7 fun k => k = .pollin, .newServer, .sleep, .wait [7], .next, .accept 8 true (fun _ => false) [] [] true,
        .acceptDone true, .next, .next, .check, .wakeup] = some _ := rfl
  refine ⟨_, hrun, wakeup_of_queued hrun rfl rfl rfl ?_⟩
  exact List.cons_ne_nil _ _

end Polled

end Slam
