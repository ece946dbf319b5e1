import Slam.Io.IoThread

/-!
# What the worker is told about a connection

The messages of one accepted connection should reach the worker as `ESTABLISH_CONNECTION`, then
packages, then (once the io thread has removed the socket) one `LOST_CONNECTION`, and all of them
before anything about a later connection on the same descriptor.

`slam_io_thread_establish_connection_event` and `slam_io_thread_lost_connection_event` report a full
queue, but their callers ignore it. So the story is complete in every run in which the queue has room
whenever one of these two events is pushed (`connections_told`), whatever the order of accepts, reads,
writes, errors, removals and worker steps; and `connection_not_told` is a run that meets a full queue.
The invariant `Narrates` also says that messages on one descriptor are queued by serial number.
-/

namespace Slam
namespace IoThread

variable {cap sendCap : ℕ}

/-! ### The messages of one connection -/

/-- The messages of connection `c`, in order. -/
def messagesOf (xs : List (ℕ × Message)) (c : ℕ) : List Message :=
  (xs.filter fun x => x.1 = c).map Prod.snd

theorem messagesOf_append (xs ys : List (ℕ × Message)) (c : ℕ) :
    messagesOf (xs ++ ys) c = messagesOf xs c ++ messagesOf ys c := by
  simp [messagesOf]

theorem messagesOf_self (c : ℕ) (m : Message) : messagesOf [(c, m)] c = [m] := by
  simp [messagesOf]

theorem messagesOf_of_ne {c c' : ℕ} (h : c' ≠ c) (m : Message) : messagesOf [(c', m)] c = [] := by
  simp [messagesOf, h]

theorem messagesOf_eq_nil {xs : List (ℕ × Message)} {c : ℕ} (h : ∀ x ∈ xs, x.1 ≠ c) :
    messagesOf xs c = [] := by
  simpa [messagesOf, List.filter_eq_nil_iff] using fun a b hab => h (a, b) hab

/-- `LOST_CONNECTION` once connection `c` no longer owns its descriptor. -/
def farewell (io : IoThread cap sendCap) (c : ℕ) (fd : ℤ) : List Message :=
  if io.owner fd = some (c, .connection) then [] else [Message.new fd .lostConnection 0]

/-- The worker is told the whole story of connection `c` on descriptor `fd`. -/
structure TellsConnection (io : IoThread cap sendCap) (c : ℕ) (fd : ℤ) : Prop where
  sequence : ∃ packages, (∀ m ∈ packages, Packaged fd m) ∧
    messagesOf io.log c =
      Message.new fd .establishConnection 0 :: packages ++ io.farewell c fd
  precedes : ∀ c' > c, io.history[c']? = some (fd, .connection) →
    ∀ pre m post, io.log = pre ++ (c', m) :: post → m.type = .establishConnection →
      ∀ x ∈ post, x.1 ≠ c
  popped : messagesOf io.popped c <+: messagesOf io.log c

/-! ### The invariant -/

/-- Owners are in the history, queued messages belong to connections of the history and are in the
order of their serial numbers on every descriptor, and every accepted connection's story is told up
to the present. -/
structure Narrates (io : IoThread cap sendCap) : Prop where
  owned : ∀ fd c type, io.owner fd = some (c, type) → io.history[c]? = some (fd, type)
  known : ∀ x ∈ io.log, ∃ type, io.history[x.1]? = some (x.2.fd, type)
  ordered : io.log.Pairwise fun x y => x.2.fd = y.2.fd → x.1 ≤ y.1
  latest : ∀ fd c type, io.owner fd = some (c, type) → ∀ x ∈ io.log, x.2.fd = fd → x.1 ≤ c
  told : ∀ c fd, io.history[c]? = some (fd, .connection) → ∃ packages,
    (∀ m ∈ packages, Packaged fd m) ∧
    messagesOf io.log c =
      Message.new fd .establishConnection 0 :: packages ++ io.farewell c fd

theorem narrates_new : (new cap sendCap).Narrates where
  owned := nofun
  known := nofun
  ordered := .nil
  latest := nofun
  told c fd h := by simp [new] at h

theorem Narrates.lt_length {io : IoThread cap sendCap} (h : io.Narrates) {x : ℕ × Message}
    (hx : x ∈ io.log) : x.1 < io.history.length := by
  obtain ⟨type, hx⟩ := h.known x hx
  exact (List.getElem?_eq_some_iff.1 hx).1

theorem farewell_congr {io io' : IoThread cap sendCap} {c : ℕ} {fd : ℤ}
    (h : io'.owner fd = some (c, .connection) ↔ io.owner fd = some (c, .connection)) :
    io'.farewell c fd = io.farewell c fd := by
  simp only [farewell, h]

/-- One more message on a descriptor, of the connection that owns it. -/
theorem Narrates.append {io io' : IoThread cap sendCap} (h : io.Narrates) {fd : ℤ} {c : ℕ}
    {type : SocketType} {m : Message} (hown : io.owner fd = some (c, type)) (hm : m.fd = fd)
    (hhistory : io'.history = io.history) (hlog : io'.log = io.log ++ [(c, m)]) :
    (∀ x ∈ io'.log, ∃ type, io'.history[x.1]? = some (x.2.fd, type)) ∧
      io'.log.Pairwise fun x y => x.2.fd = y.2.fd → x.1 ≤ y.1 := by
  refine ⟨?_, ?_⟩
  · intro x hx
    rw [hlog, List.mem_append, List.mem_singleton] at hx
    rw [hhistory]
    rcases hx with hx | rfl
    · exact h.known x hx
    · exact ⟨type, by rw [h.owned fd c type hown, hm]⟩
  · rw [hlog, List.pairwise_append]
    refine ⟨h.ordered, List.pairwise_singleton _ _, ?_⟩
    intro x hx y hy heq
    rw [List.mem_singleton] at hy
    subst hy
    exact h.latest fd c type hown x hx (heq.trans hm)

theorem Narrates.package {io io' : IoThread cap sendCap} (h : io.Narrates) {fd : ℤ} {c : ℕ}
    {type : SocketType} {m : Message} (hown : io.owner fd = some (c, type)) (hm : Packaged fd m)
    (howner : io'.owner = io.owner) (hhistory : io'.history = io.history)
    (hlog : io'.log = io.log ++ [(c, m)]) : io'.Narrates := by
  obtain ⟨hknown, hordered⟩ := h.append hown hm.1 hhistory hlog
  refine ⟨?_, hknown, hordered, ?_, ?_⟩
  · rw [howner, hhistory]
    exact h.owned
  · intro fd' c' type' hown' x hx hfd
    rw [howner] at hown'
    rw [hlog, List.mem_append, List.mem_singleton] at hx
    rcases hx with hx | rfl
    · exact h.latest fd' c' type' hown' x hx hfd
    · obtain rfl : fd = fd' := hm.1.symm.trans hfd
      rw [hown] at hown'
      cases hown'
      exact le_rfl
  · intro c' fd' hc'
    rw [hhistory] at hc'
    obtain ⟨packages, hpackages, htold⟩ := h.told c' fd' hc'
    have hfarewell : io'.farewell c' fd' = io.farewell c' fd' := farewell_congr (by rw [howner])
    rw [hlog, messagesOf_append, htold, hfarewell]
    by_cases hc : c = c'
    · -- The owner's story goes on: it has not been told farewell yet.
      subst hc
      have hhist := h.owned fd c type hown
      rw [hc'] at hhist
      cases hhist
      have hnone : io.farewell c fd = [] := by rw [farewell, if_pos hown]
      refine ⟨packages ++ [m], ?_, ?_⟩
      · intro m' hm'
        rcases List.mem_append.1 hm' with hm' | hm'
        · exact hpackages m' hm'
        · rw [List.mem_singleton] at hm'
          exact hm' ▸ hm
      · rw [hnone, messagesOf_self, List.append_nil, List.append_nil, List.cons_append]
    · exact ⟨packages, hpackages, by rw [messagesOf_of_ne hc, List.append_nil]⟩

theorem Narrates.removed {io io' : IoThread cap sendCap} (h : io.Narrates) {fd : ℤ} {c : ℕ}
    {type : SocketType} (hown : io.owner fd = some (c, type))
    (howner : io'.owner = Function.update io.owner fd none) (hhistory : io'.history = io.history)
    (hlog : io'.log = io.log ++ [(c, Message.new fd .lostConnection 0)]) : io'.Narrates := by
  obtain ⟨hknown, hordered⟩ := h.append hown rfl hhistory hlog
  have hgone : io'.owner fd = none := by rw [howner, Function.update_self]
  have hkept : ∀ fd' ≠ fd, io'.owner fd' = io.owner fd' := fun fd' hne => by
    rw [howner, Function.update_of_ne hne]
  refine ⟨?_, hknown, hordered, ?_, ?_⟩
  · intro fd' c' type' hown'
    by_cases hfd : fd' = fd
    · rw [hfd, hgone] at hown'
      cases hown'
    · rw [hhistory]
      exact h.owned fd' c' type' (hkept fd' hfd ▸ hown')
  · intro fd' c' type' hown' x hx hxfd
    have hfd : fd' ≠ fd := by
      rintro rfl
      rw [hgone] at hown'
      cases hown'
    rw [hlog, List.mem_append, List.mem_singleton] at hx
    rcases hx with hx | rfl
    · exact h.latest fd' c' type' (hkept fd' hfd ▸ hown') x hx hxfd
    · exact absurd hxfd.symm hfd
  · intro c' fd' hc'
    rw [hhistory] at hc'
    obtain ⟨packages, hpackages, htold⟩ := h.told c' fd' hc'
    refine ⟨packages, hpackages, ?_⟩
    rw [hlog, messagesOf_append, htold]
    by_cases hc : c = c'
    · subst hc
      have hhist := h.owned fd c type hown
      rw [hc'] at hhist
      cases hhist
      have hbefore : io.farewell c fd = [] := by rw [farewell, if_pos hown]
      have hafter : io'.farewell c fd = [Message.new fd .lostConnection 0] := by
        rw [farewell, hgone, if_neg (by simp)]
      rw [hbefore, hafter, messagesOf_self, List.append_nil]
    · have hsame : io'.farewell c' fd' = io.farewell c' fd' := by
        apply farewell_congr
        by_cases hfd : fd' = fd
        · subst hfd
          rw [hgone, hown]
          simp [hc]
        · rw [hkept fd' hfd]
      rw [hsame, messagesOf_of_ne hc, List.append_nil]

/-- A socket that enters the table changes nothing in the story of an earlier connection. -/
theorem Narrates.told_of_lt {io io' : IoThread cap sendCap} (h : io.Narrates) {fd : ℤ}
    {type : SocketType} {xs : List (ℕ × Message)} (hfree : io.owner fd = none)
    (howner : io'.owner = Function.update io.owner fd (some (io.history.length, type)))
    (hlog : io'.log = io.log ++ xs) (hxs : ∀ x ∈ xs, x.1 = io.history.length) {c : ℕ} {fd' : ℤ}
    (hlt : c < io.history.length) (hc : io.history[c]? = some (fd', .connection)) :
    ∃ packages, (∀ m ∈ packages, Packaged fd' m) ∧ messagesOf io'.log c =
      Message.new fd' .establishConnection 0 :: packages ++ io'.farewell c fd' := by
  obtain ⟨packages, hpackages, htold⟩ := h.told c fd' hc
  have hnone : messagesOf xs c = [] := messagesOf_eq_nil fun x hx => by
    rw [hxs x hx]
    exact hlt.ne'
  have hsame : io'.farewell c fd' = io.farewell c fd' := by
    apply farewell_congr
    by_cases hfd : fd' = fd
    · subst hfd
      rw [howner, Function.update_self, hfree]
      simp [hlt.ne']
    · rw [howner, Function.update_of_ne hfd]
  exact ⟨packages, hpackages, by rw [hlog, messagesOf_append, htold, hnone, hsame, List.append_nil]⟩

/-- The story of a connection begins when it enters the table. -/
theorem Narrates.told_new {io io' : IoThread cap sendCap} (h : io.Narrates) {fd : ℤ}
    (hnew : io'.owner fd = some (io.history.length, .connection))
    (hlog : io'.log =
      io.log ++ [(io.history.length, Message.new fd .establishConnection 0)]) :
    messagesOf io'.log io.history.length =
      Message.new fd .establishConnection 0 :: [] ++ io'.farewell io.history.length fd := by
  have hnone : messagesOf io.log io.history.length = [] :=
    messagesOf_eq_nil fun x hx => (h.lt_length hx).ne
  rw [hlog, messagesOf_append, hnone, messagesOf_self, farewell, if_pos hnew]
  rfl

theorem Narrates.opened {io io' : IoThread cap sendCap} (h : io.Narrates) {fd : ℤ}
    {type : SocketType} {xs : List (ℕ × Message)} (hfree : io.owner fd = none)
    (howner : io'.owner = Function.update io.owner fd (some (io.history.length, type)))
    (hhistory : io'.history = io.history ++ [(fd, type)]) (hlog : io'.log = io.log ++ xs)
    (hxs : (type ≠ .connection ∧ xs = []) ∨
      (type = .connection ∧
        xs = [(io.history.length, Message.new fd .establishConnection 0)])) : io'.Narrates := by
  have hnew : io'.owner fd = some (io.history.length, type) := by rw [howner, Function.update_self]
  have hkept : ∀ fd' ≠ fd, io'.owner fd' = io.owner fd' := fun fd' hne => by
    rw [howner, Function.update_of_ne hne]
  have hlast : io'.history[io.history.length]? = some (fd, type) := by
    rw [hhistory, List.getElem?_append_right le_rfl, Nat.sub_self]
    rfl
  have hgrow : ∀ {c : ℕ} {x : ℤ × SocketType}, io.history[c]? = some x → io'.history[c]? = some x :=
    fun hc => by
      rw [hhistory, List.getElem?_append_left (List.getElem?_eq_some_iff.1 hc).1, hc]
  have hxs' : ∀ x ∈ xs, x = (io.history.length, Message.new fd .establishConnection 0) := by
    rintro x hx
    rcases hxs with ⟨-, rfl⟩ | ⟨-, rfl⟩
    · cases hx
    · exact List.mem_singleton.1 hx
  refine ⟨?_, ?_, ?_, ?_, ?_⟩
  · intro fd' c type' hown
    by_cases hfd : fd' = fd
    · rw [hfd, hnew] at hown
      cases hown
      rw [hfd, hlast]
    · exact hgrow (h.owned fd' c type' (hkept fd' hfd ▸ hown))
  · intro x hx
    rw [hlog, List.mem_append] at hx
    rcases hx with hx | hx
    · obtain ⟨type', hx⟩ := h.known x hx
      exact ⟨type', hgrow hx⟩
    · rw [hxs' x hx]
      exact ⟨type, hlast⟩
  · -- The new socket has the highest serial number so far.
    rw [hlog, List.pairwise_append]
    refine ⟨h.ordered, ?_, ?_⟩
    · rcases hxs with ⟨-, rfl⟩ | ⟨-, rfl⟩
      · exact .nil
      · exact List.pairwise_singleton _ _
    · intro x hx y hy _
      rw [hxs' y hy]
      exact (h.lt_length hx).le
  · intro fd' c type' hown x hx hxfd
    rw [hlog, List.mem_append] at hx
    by_cases hfd : fd' = fd
    · rw [hfd, hnew] at hown
      cases hown
      rcases hx with hx | hx
      · exact (h.lt_length hx).le
      · rw [hxs' x hx]
    · rcases hx with hx | hx
      · exact h.latest fd' c type' (hkept fd' hfd ▸ hown) x hx hxfd
      · rw [hxs' x hx] at hxfd
        exact absurd hxfd.symm hfd
  · intro c fd' hc
    by_cases hlt : c < io.history.length
    · rw [hhistory, List.getElem?_append_left hlt] at hc
      exact h.told_of_lt hfree howner hlog (fun x hx => by rw [hxs' x hx]) hlt hc
    · have hbound := (List.getElem?_eq_some_iff.1 hc).1
      rw [hhistory, List.length_append, List.length_singleton] at hbound
      obtain rfl : c = io.history.length := by omega
      rw [hlast] at hc
      cases hc
      obtain ⟨hne, -⟩ | ⟨-, rfl⟩ := hxs
      · exact absurd rfl hne
      · exact ⟨[], nofun, h.told_new hnew hlog⟩

/-! ### Every run -/

/-- The shared queue has room whenever an `ESTABLISH_CONNECTION` or a `LOST_CONNECTION` is pushed. -/
def EventRoom (io : IoThread cap sendCap) (e : IoEvent) : Prop :=
  io.PushesEvent e → io.mq.items.length < cap

instance (io : IoThread cap sendCap) (e : IoEvent) : Decidable (io.EventRoom e) :=
  match e with
  | .accept _ _ _ _ => inferInstanceAs (Decidable (_ ∧ _ ∧ _ → _ < _))
  | .pollError _ => inferInstanceAs (Decidable (_ ≠ none → _ < _))
  | .turn =>
    match h : io.control with
    | .removing fd => decidable_of_iff (io.sockets fd ≠ none → io.mq.items.length < cap)
        (by simp only [EventRoom, PushesEvent, h])
    | .idle | .accepting _ | .reading _ | .writing _ =>
      isTrue (by simp only [EventRoom, PushesEvent, h, false_implies])
  | .pollIn _ | .pollOut _ | .acceptDone | .pop | .respond _ _ _ _ | .handled | .newServer _ _
  | .newClient _ _ _ _ => isTrue False.elim

theorem Narrates.step {io io' : IoThread cap sendCap} (h : io.Narrates) {e : IoEvent}
    (hroom : io.EventRoom e) (heffect : io.Effect e io') : io'.Narrates := by
  cases heffect with
  | quiet howner hhistory hlog _ =>
    refine ⟨?_, ?_, ?_, ?_, ?_⟩
    · rw [howner, hhistory]; exact h.owned
    · rw [hlog, hhistory]; exact h.known
    · rw [hlog]; exact h.ordered
    · rw [howner, hlog]; exact h.latest
    · simp only [hhistory, hlog, farewell, howner]
      exact h.told
  | opened fd type xs _ hfree howner hhistory happ hxs =>
    rcases hxs with hxs | hxs | ⟨-, hfull, hpush⟩
    · exact h.opened hfree howner hhistory happ.log (.inl hxs)
    · exact h.opened hfree howner hhistory happ.log (.inr hxs)
    · exact absurd hfull (hroom hpush).ne
  | package fd c type m hown hm howner hhistory happ =>
    exact h.package hown hm howner hhistory happ.log
  | removed fd c type xs hown howner hhistory happ hxs =>
    rcases hxs with rfl | ⟨-, hfull, hpush⟩
    · exact h.removed hown howner hhistory happ.log
    · exact absurd hfull (hroom hpush).ne

theorem Narrates.tellsConnection {io : IoThread cap sendCap} (h : io.Narrates) {c : ℕ} {fd : ℤ}
    (hc : io.history[c]? = some (fd, .connection)) : io.TellsConnection c fd := by
  refine ⟨h.told c fd hc, ?_, ?_⟩
  swap
  · rw [log, messagesOf_append]
    exact List.prefix_append _ _
  rintro c' hlt hc' pre m post hlog - x hx rfl
  have hordered := h.ordered
  rw [hlog, List.pairwise_append, List.pairwise_cons] at hordered
  have hfd : m.fd = fd := by
    obtain ⟨type, hm⟩ := h.known (c', m) (by rw [hlog]; simp)
    rw [hc'] at hm
    cases hm
    rfl
  have hxfd : x.2.fd = fd := by
    obtain ⟨type, hx'⟩ := h.known x (by rw [hlog]; simp [hx])
    rw [hc] at hx'
    cases hx'
    rfl
  have hle := hordered.2.1.1 x hx (hfd.trans hxfd.symm)
  exact absurd hlt (not_lt.2 hle)

/-- **Connection events.** In every run of the two threads in which the queue has room whenever an
`ESTABLISH_CONNECTION` or a `LOST_CONNECTION` is pushed, the worker is told the whole story of every
accepted connection. -/
theorem connections_told {maxPackageSize : ℕ} {es : List IoEvent} {io : IoThread cap sendCap}
    (hroom : (system cap sendCap maxPackageSize).Guarded EventRoom (new cap sendCap) es)
    (hrun : (system cap sendCap maxPackageSize).run (new cap sendCap) es = some io) (c : ℕ) (fd : ℤ)
    (hc : io.history[c]? = some (fd, .connection)) : io.TellsConnection c fd := by
  have hinv : io.Tagged ∧ io.Narrates :=
    Machine.invariant_of_guarded (G := EventRoom) (I := fun io => io.Tagged ∧ io.Narrates)
      (fun s e s' hs hG hstep =>
        have heffect := step_effect hs.1 hstep
        ⟨heffect.2, hs.2.step hG heffect.1⟩)
      ⟨tagged_new, narrates_new⟩ hroom hrun
  exact hinv.2.tellsConnection hc

/-- A connection on descriptor 7 that the peer closes at once, and another on the same descriptor. -/
def reopened : List IoEvent :=
  [.newServer 3 true, .pollIn 3, .accept 7 true [.eof] [], .acceptDone, .pop, .handled, .pollIn 7,
    .turn, .turn, .pollIn 3, .accept 7 true [] [], .acceptDone, .pop]

/-- The state they lead to. -/
def reopenedState : IoThread 2 1 :=
  ((system 2 1 4194304).run (new 2 1) reopened).getD (new 2 1)

theorem connections_told_reopened :
    reopenedState.history = [(3, .server), (7, .connection), (7, .connection)] ∧
      reopenedState.TellsConnection 1 7 ∧ reopenedState.TellsConnection 2 7 := by
  have hroom : (system 2 1 4194304).Guarded EventRoom (new 2 1) reopened := by decide +kernel
  have hsome : ((system 2 1 4194304).run (new 2 1) reopened).isSome := by decide +kernel
  have hrun : (system 2 1 4194304).run (new 2 1) reopened = some reopenedState := by
    rw [reopenedState]
    exact Machine.run_eq_getD hsome _
  have hhistory : reopenedState.history = [(3, .server), (7, .connection), (7, .connection)] := by
    decide +kernel
  exact ⟨hhistory, connections_told hroom hrun 1 7 (by rw [hhistory]; rfl),
    connections_told hroom hrun 2 7 (by rw [hhistory]; rfl)⟩

/-! ### A full queue -/

/-- A server on descriptor 20 and `n` connections accepted while the worker is busy. -/
def flood (n : ℕ) : List IoEvent :=
  [.newServer 20 true, .pollIn 20] ++
    (List.range n).map fun i : ℕ => .accept (21 + (i : ℤ)) true [] []

/-- The table holds `n` connections, of which the queue tells the first `cap`. -/
structure Flooded (n : ℕ) (io : IoThread cap sendCap) : Prop where
  aborted : io.aborted = false
  control : io.control = .accepting 20
  free : ∀ fd, 20 + (n : ℤ) < fd → io.sockets fd = none
  history : io.history =
    (20, .server) :: (List.range n).map fun i : ℕ => (21 + (i : ℤ), .connection)
  popped : io.popped = []
  length : io.mq.items.length = min n cap
  told : ∀ x ∈ io.mq.items, x.1 ≤ cap

theorem Flooded.accept {n : ℕ} {io : IoThread cap sendCap} (h : Flooded n io) (hn : n < 60000)
    (maxPackageSize : ℕ) : ∃ io', io.step maxPackageSize (.accept (21 + (n : ℤ)) true [] []) =
      some io' ∧ Flooded (n + 1) io' := by
  have hvalid : ValidSocket (21 + (n : ℤ)) := ⟨by omega, by unfold maxSocketNumber; omega⟩
  have hfree : io.sockets (21 + (n : ℤ)) = none := h.free _ (by omega)
  have hserial : io.history.length = n + 1 := by rw [h.history]; simp
  refine ⟨io.acceptSocket (21 + (n : ℤ)) [] [] true, by simp [step, h.aborted, h.control], ?_⟩
  have hhistory : io.history ++ [(21 + (n : ℤ), .connection)] =
      (20, .server) :: (List.range (n + 1)).map fun i : ℕ => (21 + (i : ℤ), .connection) := by
    rw [h.history, List.range_succ, List.map_append, List.map_singleton, List.cons_append]
  have hothers : ∀ fd, 20 + ((n + 1 : ℕ) : ℤ) < fd →
      Function.update io.sockets (21 + (n : ℤ))
        (some (Socket.new io.history.length .connection [] [])) fd = none := fun fd hfd => by
    rw [Function.update_of_ne (by omega)]
    exact h.free fd (by omega)
  have hlen := h.length
  rw [acceptSocket_of_free hvalid hfree]
  rcases pushEvent_cases { io with
      sockets := Function.update io.sockets (21 + (n : ℤ))
        (some (Socket.new io.history.length .connection [] []))
      history := io.history ++ [(21 + (n : ℤ), .connection)] }
    .establishConnection io.history.length (21 + (n : ℤ)) with ⟨hfull, he⟩ | ⟨q, hq, he⟩ <;> rw [he]
  · exact ⟨h.aborted, h.control, hothers, hhistory, h.popped, by dsimp only at hfull ⊢; omega, h.told⟩
  · obtain ⟨hroom, hitems⟩ := BoundedFifo.push_eq_some_iff.1 hq
    dsimp only at hroom hitems
    refine ⟨h.aborted, h.control, hothers, hhistory, h.popped, ?_, ?_⟩
    · rw [hitems, List.length_append, List.length_singleton]
      omega
    · intro x hx
      rw [hitems, List.mem_append, List.mem_singleton] at hx
      rcases hx with hx | rfl
      · exact h.told x hx
      · dsimp only
        omega

theorem flood_run (maxPackageSize n : ℕ) (hn : n ≤ 60000) :
    ∃ io, (system cap sendCap maxPackageSize).run (new cap sendCap) (flood n) = some io ∧
      Flooded n io := by
  induction n with
  | zero =>
    refine ⟨_, rfl, rfl, rfl, ?_, rfl, rfl, (Nat.zero_min _).symm, nofun⟩
    intro fd hfd
    exact Function.update_of_ne (by push_cast at hfd; omega) _ _
  | succ n ih =>
    obtain ⟨io, hrun, hflooded⟩ := ih (by omega)
    obtain ⟨io', hstep, hflooded'⟩ := hflooded.accept (by omega) maxPackageSize
    refine ⟨io', ?_, hflooded'⟩
    have hsplit : flood (n + 1) = flood n ++ [.accept (21 + (n : ℤ)) true [] []] := by
      rw [flood, List.range_succ, List.map_append, ← List.append_assoc]
      rfl
    rw [hsplit, Machine.run_append, hrun, Option.bind_some, Machine.run_cons]
    exact congrArg (Option.bind · _) hstep

/-- The connection accepted when the queue is full is never announced. -/
theorem Flooded.not_told {io : IoThread cap sendCap} (h : Flooded (cap + 1) io) :
    io.history[cap + 1]? = some (21 + (cap : ℤ), .connection) ∧
      ¬ io.TellsConnection (cap + 1) (21 + (cap : ℤ)) := by
  refine ⟨by rw [h.history]; simp, ?_⟩
  rintro ⟨⟨packages, -, hstory⟩, -, -⟩
  have hnone : messagesOf io.log (cap + 1) = [] := messagesOf_eq_nil fun x hx => by
    rw [log, h.popped, List.nil_append] at hx
    have := h.told x hx
    omega
  rw [hnone] at hstory
  cases hstory

/-- With the queue of `receive_queue_size = 10000`, the ten thousandth connection accepted while the
worker is busy is not announced. -/
theorem connection_not_told :
    ∃ es io, (system 9999 999 4194304).run (new 9999 999) es = some io ∧
      ∃ c fd, io.history[c]? = some (fd, .connection) ∧ ¬ io.TellsConnection c fd := by
  obtain ⟨io, hrun, hflooded⟩ := flood_run 4194304 10000 (by norm_num)
  exact ⟨flood 10000, io, hrun, 10000, 21 + (9999 : ℤ), hflooded.not_told⟩

end IoThread
end Slam
