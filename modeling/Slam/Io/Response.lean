import Slam.Io.IoThread

/-!
# Which connection a response reaches

The worker handles a package some time after the io thread read it, and answers with
`cc.response(fd, …)` on the descriptor it was given. `slam_io_response` looks the descriptor up in the
socket table: it notices when the connection is gone, but not when another connection has been given
the same descriptor meanwhile.

`response_reaches_sender`: in every run in which no socket enters the table at the descriptor of a
package that is still queued or being handled, a response goes to the connection the package came
from, or nowhere. `response_misdelivered` is a run in which it goes to the next connection.
-/

namespace Slam
namespace IoThread

variable {cap sendCap : ℕ}

/-- Between `io` and `io'` nothing was put into a send queue, except into that of connection `c`. -/
def OnlyAnswers (io io' : IoThread cap sendCap) (c : ℕ) : Prop :=
  ∀ fd s', io'.sockets fd = some s' → ∃ s, io.sockets fd = some s ∧ s'.conn = s.conn ∧
    (s'.sender.sendmq = s.sender.sendmq ∨ s.conn = c)

/-- A package that is queued or being handled came from the connection that owns its descriptor, or
the descriptor is free. -/
def Rightful (io : IoThread cap sendCap) : Prop :=
  ∀ x ∈ io.pending, x.2.type = .protobufPackage →
    io.owner x.2.fd = none ∨ ∃ type, io.owner x.2.fd = some (x.1, type)

/-- No socket enters the table at the descriptor of a package that is queued or being handled. -/
def NoReuse (io : IoThread cap sendCap) (e : IoEvent) : Prop :=
  ∀ fd, io.Opens fd e → ∀ x ∈ io.pending, x.2.type = .protobufPackage → x.2.fd ≠ fd

instance (io : IoThread cap sendCap) (e : IoEvent) : Decidable (io.NoReuse e) :=
  have decide_at (fd : ℤ) (pollAdd : Bool) (h : ∀ fd', io.Opens fd' e ↔
      (fd = fd' ∧ io.sockets fd' = none ∧ pollAdd = true)) : Decidable (io.NoReuse e) :=
    decidable_of_iff (io.sockets fd = none ∧ pollAdd = true → ∀ x ∈ io.pending,
      x.2.type = .protobufPackage → x.2.fd ≠ fd)
      ⟨fun hfd fd' hopens => by
        obtain ⟨rfl, hopens⟩ := (h fd').1 hopens
        exact hfd hopens,
       fun hall hopens => hall fd ((h fd).2 ⟨rfl, hopens⟩)⟩
  match e, decide_at with
  | .accept fd pollAdd _ _, decide_at => decide_at fd pollAdd fun _ => Iff.rfl
  | .newServer fd pollAdd, decide_at => decide_at fd pollAdd fun _ => Iff.rfl
  | .newClient fd pollAdd _ _, decide_at => decide_at fd pollAdd fun _ => Iff.rfl
  | .pollError _, _ | .pollIn _, _ | .pollOut _, _ | .acceptDone, _ | .turn, _ | .pop, _
  | .respond _ _ _ _, _ | .handled, _ => isTrue fun _ h => h.elim

theorem rightful_new : (new cap sendCap).Rightful := nofun

theorem Rightful.step {io io' : IoThread cap sendCap} (h : io.Rightful) {e : IoEvent}
    (hreuse : io.NoReuse e) (heffect : io.Effect e io') : io'.Rightful := by
  cases heffect with
  | quiet howner _ _ hpending =>
    intro x hx htype
    rw [howner]
    exact h x (hpending.subset hx) htype
  | opened fd type xs hopens _ howner _ happ hxs =>
    intro x hx htype
    rw [happ.pending, List.mem_append] at hx
    rcases hx with hx | hx
    · rw [howner, Function.update_of_ne (hreuse fd hopens x hx htype)]
      exact h x hx htype
    · -- The only message that comes with a new socket is not a package.
      rcases hxs with ⟨-, rfl⟩ | ⟨-, rfl⟩ | ⟨rfl, -⟩
      · cases hx
      · rw [List.mem_singleton] at hx
        subst hx
        cases htype
      · cases hx
  | package fd c type m hown hm howner _ happ =>
    intro x hx htype
    rw [howner]
    rw [happ.pending, List.mem_append, List.mem_singleton] at hx
    rcases hx with hx | rfl
    · exact h x hx htype
    · exact .inr ⟨type, by rw [hm.1, hown]⟩
  | removed fd c type xs hown howner _ happ hxs =>
    intro x hx htype
    rw [happ.pending, List.mem_append] at hx
    rcases hx with hx | hx
    · by_cases hfd : x.2.fd = fd
      · exact .inl (by rw [howner, hfd, Function.update_self])
      · rw [howner, Function.update_of_ne hfd]
        exact h x hx htype
    · rcases hxs with rfl | ⟨rfl, -⟩
      · rw [List.mem_singleton] at hx
        subst hx
        cases htype
      · cases hx

/-- A response touches only the connection that owns the descriptor now. -/
theorem onlyAnswers_respond {io io' : IoThread cap sendCap} {maxPackageSize : ℕ} {fd msgid : ℤ}
    {payload : List Byte} {pollout : Bool} {c : ℕ}
    (hown : io.owner fd = none ∨ ∃ type, io.owner fd = some (c, type))
    (hstep : io.step maxPackageSize (.respond fd msgid payload pollout) = some io') :
    io.OnlyAnswers io' c := by
  simp only [step] at hstep
  split_ifs at hstep
  cases hstep
  intro fd' s' hs'
  have hfd : (encodedMessage fd msgid payload).fd = fd := rfl
  rcases ioResponse_cases io.sockets (encodedMessage fd msgid payload) pollout with he |
    ⟨s, sender', hs, he⟩
  · dsimp only at hs'
    rw [he] at hs'
    exact ⟨s', hs', rfl, .inl rfl⟩
  · dsimp only at hs'
    rw [he, hfd] at hs'
    rw [hfd] at hs
    by_cases hfd' : fd' = fd
    · subst hfd'
      rw [Function.update_self] at hs'
      cases hs'
      refine ⟨s, hs, rfl, .inr ?_⟩
      -- The socket found under the descriptor is the owner's, so its serial number is `c`.
      rcases hown with hnone | ⟨type, hsome⟩
      · rw [owner, hs] at hnone
        cases hnone
      · rw [owner, hs] at hsome
        cases hsome
        rfl
    · rw [Function.update_of_ne hfd'] at hs'
      exact ⟨s', hs', rfl, .inl rfl⟩

/-- **Responses reach the connection they answer.** In every run in which no socket enters the table
at the descriptor of a package that is queued or being handled, a response made with that descriptor
while the package is handled enters the send queue of the connection it came from, or none. -/
theorem response_reaches_sender {maxPackageSize : ℕ} {es : List IoEvent}
    {io io' : IoThread cap sendCap} {c : ℕ} {m : Message} {msgid : ℤ} {payload : List Byte}
    {pollout : Bool}
    (hreuse : (system cap sendCap maxPackageSize).Guarded NoReuse (new cap sendCap) es)
    (hrun : (system cap sendCap maxPackageSize).run (new cap sendCap) es = some io)
    (hhandling : io.handling = some (c, m)) (hpackage : m.type = .protobufPackage)
    (hstep : io.step maxPackageSize (.respond m.fd msgid payload pollout) = some io') :
    io.OnlyAnswers io' c := by
  have hinv : io.Tagged ∧ io.Rightful :=
    Machine.invariant_of_guarded (G := NoReuse) (I := fun io => io.Tagged ∧ io.Rightful)
      (fun s e s' hs hG hstep =>
        have heffect := step_effect hs.1 hstep
        ⟨heffect.2, hs.2.step hG heffect.1⟩)
      ⟨tagged_new, rightful_new⟩ hreuse hrun
  refine onlyAnswers_respond (hinv.2 (c, m) ?_ hpackage) hstep
  rw [pending, hhandling]
  exact List.mem_cons_self ..

/-! ### A descriptor given to the next connection -/

/-- A package of eighteen bytes, all header. -/
def headerOnly : List Byte := RawMessage.bytes ⟨18, 0, 1, 0, []⟩

/-- A client on descriptor 7 sends one package. -/
def firstClient (recvs : List RecvAnswer) : List IoEvent :=
  [.newServer 3 true, .pollIn 3, .accept 7 true (.data 18 headerOnly.tail :: recvs) [], .acceptDone,
    .pop, .handled, .pollIn 7, .turn, .turn, .turn]

/-- The first client hangs up, and the next one is given the same descriptor. -/
def nextClient : List IoEvent :=
  firstClient [.eof] ++ [.turn, .pollIn 3, .accept 7 true [] [], .acceptDone]

/-- Then the worker takes up the package. -/
def handlesPackage (es : List IoEvent) : IoThread 9 9 :=
  ((system 9 9 4194304).run (new 9 9) (es ++ [.pop])).getD (new 9 9)

/-- It answers on descriptor 7. -/
def answersPackage (es : List IoEvent) : IoThread 9 9 :=
  ((handlesPackage es).step 4194304 (.respond 7 1 [] true)).getD (new 9 9)

/-- Who owns descriptor 7, and how many messages wait to be sent there. -/
def waiting (io : IoThread 9 9) : Option (ℕ × ℕ) :=
  (io.sockets 7).map fun s => (s.conn, s.sender.sendmq.items.length)

theorem run_handlesPackage {es : List IoEvent}
    (h : ((system 9 9 4194304).run (new 9 9) (es ++ [.pop])).isSome) :
    (system 9 9 4194304).run (new 9 9) (es ++ [.pop]) = some (handlesPackage es) := by
  rw [handlesPackage]
  exact Machine.run_eq_getD h _

theorem step_answersPackage {es : List IoEvent} (h : (handlesPackage es).aborted = false) :
    (handlesPackage es).step 4194304 (.respond 7 1 [] true) = some (answersPackage es) := by
  simp [answersPackage, step, h]

theorem response_reaches_first_client :
    waiting (answersPackage (firstClient [])) = some (1, 1) ∧
      (handlesPackage (firstClient [])).OnlyAnswers (answersPackage (firstClient [])) 1 := by
  have hreuse : (system 9 9 4194304).Guarded NoReuse (new 9 9) (firstClient [] ++ [.pop]) := by
    decide +kernel
  have hhandling : (handlesPackage (firstClient [])).handling =
      some (1, ⟨7, .protobufPackage, 18, 18, headerOnly⟩) := by decide +kernel
  exact ⟨by decide +kernel, response_reaches_sender hreuse (run_handlesPackage (by decide +kernel))
    hhandling rfl (step_answersPackage (by decide +kernel))⟩

/-- The answer to the first client's package goes to the second client. -/
theorem response_misdelivered :
    ∃ es io io' c m, (system 9 9 4194304).run (new 9 9) es = some io ∧
      io.handling = some (c, m) ∧ m.type = .protobufPackage ∧
      io.step 4194304 (.respond m.fd 1 [] true) = some io' ∧ ¬ io.OnlyAnswers io' c := by
  refine ⟨nextClient ++ [.pop], handlesPackage nextClient, answersPackage nextClient, 1,
    ⟨7, .protobufPackage, 18, 18, headerOnly⟩, run_handlesPackage (by decide +kernel),
    by decide +kernel, rfl, step_answersPackage (by decide +kernel), ?_⟩
  intro honly
  have hbefore : waiting (handlesPackage nextClient) = some (2, 0) := by decide +kernel
  have hafter : waiting (answersPackage nextClient) = some (2, 1) := by decide +kernel
  obtain ⟨s', hs', hwait'⟩ := Option.map_eq_some_iff.1 hafter
  obtain ⟨s, hs, hconn, hsame | hone⟩ := honly 7 s' hs'
  all_goals
    rw [waiting, hs, Option.map_some, Option.some.injEq, Prod.mk.injEq] at hbefore
    rw [Prod.mk.injEq] at hwait'
  · rw [hsame] at hwait'
    omega
  · omega

end IoThread
end Slam
