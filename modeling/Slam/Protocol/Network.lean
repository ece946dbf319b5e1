import Slam.Io.Sending
import Slam.Protocol.Wire

/-!
# Two processes and the connection between them

A script answers with `cc.response`, the io thread sends when the socket takes bytes, TCP carries them, the io thread of
the peer reads them in pieces of another size, and its worker pops packages and gives each to a handler. On both sides
many connections share one thread, one queue and the same few descriptors.

Of TCP only this is used: the bytes that `recv` gives on the one side are the first of those that `send` took on the
other. Then the i-th package of the connection is the i-th answer (`answers_conveyed`): none is lost on the way, none
comes twice or before another, and each is decoded to the message that was encoded. Two things set limits to that. A
message with an empty payload is refused by the peer, and nothing comes after an answer that is too long for it.
-/

namespace Slam

open IoThread

variable {S : Schema} (pb : Protobuf S) (P P' : SlamProtocol)

/-- Every payload that the worker answers with was serialised by `slam_protocol_encode`. -/
def Encodes (es : List IoEvent) : Prop :=
  ∀ fd msgid payload pollout, IoEvent.respond fd msgid payload pollout ∈ es →
    ∃ t m, P.messages msgid = some t ∧ pb.serialize t m = some payload

/-- `slam_protocol_decode` makes the message `m` of the package and calls the handler of the id. -/
def Handed (p : Message) (msgid : ℤ) (m : List ProtoValue) : Prop :=
  ∃ name, P'.findName msgid = some name ∧ ∀ (outcome : CallOutcome) (L : LuaState), ∃ rc L',
    (slamProtocolDecode pb P' outcome p).run L = (.ok (.event msgid m rc), L') ∧
    ((L.registry (cstring name)).isFunction = true → rc = !outcome.raised)

/-- The package is the answer: it has the same bytes, and the message that was encoded is given to the handler, unless
the payload is empty, when the package is refused. -/
def Carries (maxPackageSize : ℕ) (a : Answer) (p : Message) : Prop :=
  p.buf = a.message.buf ∧ rawmessageSize + a.payload.length < maxPackageSize ∧
    ∃ t m, P.messages a.msgid = some t ∧ pb.serialize t m = some a.payload ∧
      (a.payload = [] → decodedPackage pb P' p = none) ∧ (a.payload ≠ [] → Handed pb P' p a.msgid m)

section AtRest

variable {cap sendCap cap' sendCap' : ℕ}

/-- Nothing is on the way from connection `c` of the one process to connection `c'` of the other: all answers were
sent, all that was sent can be received, and all that can be received was read and pushed. -/
structure AtRest (io : IoThread cap sendCap) (io' : IoThread cap' sendCap') (c c' : ℕ) (sent : List Byte)
    (script : List RecvAnswer) : Prop where
  sender : ∃ fd s, io.sockets fd = some s ∧ s.conn = c ∧ s.sender.sendmq.items = []
  network : streamBytes script = sent
  receiver : ∃ fd s, io'.sockets fd = some s ∧ s.conn = c' ∧ io'.control ≠ .removing fd ∧ s.readmessage = none ∧
    streamBytes s.recvScript = []

end AtRest

/-! ### Answers as frames -/

variable {pb P P'}

/-- Whatever the limit of the peer, some limit lets all answers through. -/
theorem Encodes.frame {cap sendCap maxPackageSize : ℕ} {es : List IoEvent} (h : Encodes pb P es) {c : ℕ} {a : Answer}
    (ha : a ∈ answersOf (outgoings cap sendCap maxPackageSize es) c) {limit : ℕ} (hlimit : 2 ^ 32 ≤ limit) :
    Frame limit a.message.buf := by
  obtain ⟨pollout, hrespond⟩ := mem_of_answersOf ha
  obtain ⟨t, m, ht, hs⟩ := h _ _ _ _ hrespond
  have hlen := pb.serialize_length hs
  refine frame_encodedMessage ht hlen a.fd ?_
  simp only [rawmessageSize, msglenSize]
  omega

theorem Message.Sized.frame {maxPackageSize : ℕ} {fd : ℤ} {m : Message} (h : m.Sized maxPackageSize fd) :
    Frame maxPackageSize m.buf where
  len_eq := h.len_eq.trans h.buf_length.symm
  min_le := h.buf_length ▸ h.min_le
  lt_max := h.buf_length ▸ h.lt_max

theorem Frame.mono {maxPackageSize limit : ℕ} {f : List Byte} (h : Frame maxPackageSize f)
    (hle : maxPackageSize ≤ limit) : Frame limit f :=
  ⟨h.len_eq, h.min_le, h.lt_max.trans_le hle⟩

/-- A package with the bytes of an answer is the answer. -/
theorem carries_of_buf (hinverse : pb.Inverse) (hpeer : ∀ msgid t, P.messages msgid = some t → P'.messages msgid = some t)
    {a : Answer} {t : ℕ} {m : List ProtoValue} (ht : P.messages a.msgid = some t)
    (hs : pb.serialize t m = some a.payload) {maxPackageSize : ℕ} {fd : ℤ} {p : Message}
    (hsized : p.Sized maxPackageSize fd) (hfull : p.bytesize = p.bufsize) (hbuf : p.buf = a.message.buf) :
    Carries pb P P' maxPackageSize a p := by
  have ht' := hpeer _ _ ht
  have hlen := pb.serialize_length hs
  have hraw := ofBytes_encodedMessage ht' hlen a.fd
  have hdecoded : decodedPackage pb P' p =
      if a.payload = [] then none else (pb.parse t a.payload).map fun m => (t, m) :=
    decodedPackage_encodedMessage ht' hlen hbuf hfull
  refine ⟨hbuf, ?_, t, m, ht, hs, fun hempty => by rw [hdecoded, if_pos hempty], fun hpayload => ?_⟩
  · have hlt := hsized.frame.lt_max
    have hlength : a.message.buf.length = rawmessageSize + a.payload.length :=
      encodedMessage_length a.fd a.msgid a.payload
    rwa [hbuf, hlength] at hlt
  · rw [if_neg hpayload, hinverse t m a.payload hs, Option.map_some] at hdecoded
    obtain ⟨name, hname⟩ := SlamProtocol.exists_findName ht'
    refine ⟨name, hname, fun outcome L => ?_⟩
    obtain ⟨rc, L', ws, hrun, -, hrc⟩ := run_slamProtocolDecode_of_some hdecoded outcome L
    have hmsgid : (RawMessage.ofBytes p.buf).msgid = a.msgid := by
      rw [hbuf]
      exact congrArg RawMessage.msgid hraw
    rw [hmsgid] at hrun hrc
    exact ⟨rc, L', hrun, hrc name hname⟩

/-- Packages that are the first bytes of some answers are the first answers. -/
theorem bufs_of_front {as : List Answer} {ms : List Message} {limit : ℕ} (has : ∀ a ∈ as, Frame limit a.message.buf)
    (hms : ∀ m ∈ ms, Frame limit m.buf) (hfront : ms.flatMap Message.buf <+: bufs (as.map Answer.message)) :
    ms.map Message.buf <+: as.map fun a => a.message.buf := by
  obtain ⟨x, hx⟩ := hfront
  have hflatten : (ms.map Message.buf).flatten ++ x = (as.map fun a => a.message.buf).flatten := by
    rw [← List.flatMap_def, hx, bufs, List.flatMap_map, List.flatMap_def]
  obtain ⟨rest, hrest, -⟩ := frames_prefix (by simpa using hms) (by simpa using has) hflatten
  exact ⟨rest, hrest.symm⟩

/-! ### Two runs -/

section Runs

variable {cap sendCap maxPackageSize cap' sendCap' maxPackageSize' : ℕ} {es es' : List IoEvent}
  {io : IoThread cap sendCap} {io' : IoThread cap' sendCap'}

/-- With an empty send queue, all answers are sent. -/
theorem sent_of_drained {out : List Outgoing} (h : Sending io out) {fd : ℤ} {s : Socket sendCap}
    (hs : io.sockets fd = some s) (hdrained : s.sender.sendmq.items = []) :
    sentOf out s.conn = bufs ((answersOf out s.conn).map Answer.message) := by
  obtain ⟨-, gone, pending, k, haccepted, -, hitems, hwire, -, -⟩ := h.sound fd s hs
  cases pending with
  | cons m ms =>
    rw [hdrained] at hitems
    cases hitems
  | nil =>
    rw [bufs_nil, List.take_nil, List.append_nil] at hwire
    rw [List.append_nil] at haccepted
    rw [← h.wire fd s hs, ← h.accepted fd s hs, hwire, haccepted]

/-- **What one script answers, the other's handlers get.** In every run of one process, and every run of a peer that
knows the same message types: if TCP carries the bytes of connection `c` of the first to connection `c'` of the peer, then
the `i`-th package of `c'`, popped or queued, is the `i`-th answer on `c`; and when nothing is on the way, every answer
has become a package. -/
theorem answers_conveyed (hinverse : pb.Inverse)
    (hpeer : ∀ msgid t, P.messages msgid = some t → P'.messages msgid = some t) (hencodes : Encodes pb P es)
    (hrun : (system cap sendCap maxPackageSize).run (new cap sendCap) es = some io)
    (hrun' : (system cap' sendCap' maxPackageSize').run (new cap' sendCap') es' = some io') (c c' : ℕ)
    {script : List RecvAnswer} (hscript : (scripts cap' sendCap' maxPackageSize' es')[c']? = some script)
    (htcp : streamBytes script <+: sentOf (outgoings cap sendCap maxPackageSize es) c) :
    (∀ (i : ℕ) (p : Message), (packages io'.log c')[i]? = some p → ∃ a,
      (answersOf (outgoings cap sendCap maxPackageSize es) c)[i]? = some a ∧ Carries pb P P' maxPackageSize' a p) ∧
    (AtRest io io' c c' (sentOf (outgoings cap sendCap maxPackageSize es) c) script →
      (packages io'.log c').length = (answersOf (outgoings cap sendCap maxPackageSize es) c).length) := by
  set out := outgoings cap sendCap maxPackageSize es with hout
  have hsending : Sending io out := sending_run hrun
  have hreceiving := receiving_run hrun'
  -- The connection of the peer, and its packages as frames.
  have hlt := (List.getElem?_eq_some_iff.1 hscript).1
  rw [hreceiving.length] at hlt
  obtain ⟨⟨fd, type⟩, hc'⟩ : ∃ x, io'.history[c']? = some x := ⟨_, List.getElem?_eq_getElem hlt⟩
  have hframed := hreceiving.framed c' fd type script hc' hscript
  have hanswers : ∀ a ∈ answersOf out c, Frame (maxPackageSize' + 2 ^ 32) a.message.buf := fun a ha =>
    hencodes.frame ha (Nat.le_add_left _ _)
  have hpackages : ∀ m ∈ packages io'.log c', Frame (maxPackageSize' + 2 ^ 32) m.buf := fun m hm =>
    (hframed.complete m hm).1.frame.mono (Nat.le_add_right _ _)
  have hbufs := bufs_of_front hanswers hpackages ((hframed.front.trans htcp).trans (hsending.front c))
  refine ⟨fun i p hp => ?_, fun hrest => ?_⟩
  · have hmem := List.mem_of_getElem? hp
    obtain ⟨hlt', hget⟩ := List.getElem?_eq_some_iff.1 hp
    have hi := List.prefix_iff_getElem?.1 hbufs i (by simpa using hlt')
    rw [List.getElem?_map, List.getElem_map, hget, Option.map_eq_some_iff] at hi
    obtain ⟨a, ha, hbuf⟩ := hi
    obtain ⟨pollout, hrespond⟩ := mem_of_answersOf (List.mem_of_getElem? ha)
    obtain ⟨t, m, ht, hs⟩ := hencodes _ _ _ _ hrespond
    obtain ⟨hsized, hfull⟩ := hframed.complete p hmem
    exact ⟨a, ha, carries_of_buf hinverse hpeer ht hs hsized hfull hbuf.symm⟩
  · obtain ⟨⟨fd₀, s, hs, rfl, hdrained⟩, hnetwork, fd₁, s', hs', rfl, hcontrol, hmessage, hread⟩ := hrest
    have hconserved := (hreceiving.sound fd₁ s' script hs' hcontrol hscript).conserved
    simp only [receiver, Receiver.pending, hmessage, hread, List.append_nil] at hconserved
    rw [hnetwork, sent_of_drained hsending hs hdrained, bufs, List.flatMap_map] at hconserved
    obtain ⟨more, hmore⟩ := hbufs
    have hnone : more.flatten = [] := by
      have hflatten := congrArg List.flatten hmore
      rw [List.flatten_append, ← List.flatMap_def, ← List.flatMap_def, hconserved] at hflatten
      exact List.append_right_eq_self.1 hflatten
    cases more with
    | nil =>
      have hlength := congrArg List.length hmore
      simpa using hlength
    | cons f fs =>
      -- One more answer would have bytes.
      have hf : f ∈ (answersOf out s.conn).map fun a => a.message.buf := hmore ▸ by simp
      obtain ⟨a, ha, rfl⟩ := List.mem_map.1 hf
      have hmin := (hanswers a ha).msglenSize_le
      simp only [List.flatten_cons, List.append_eq_nil_iff] at hnone
      rw [hnone.1] at hmin
      exact absurd hmin (by decide)

end Runs

/-- The bytes of a `Ping`. -/
def pingBytes : List Byte := (encodedMessage 7 1 [8, 1]).buf

/-- The worker answers twice on descriptor 7; `send` takes five bytes, then the other fifteen, then a whole package. -/
def twoAnswers : List IoEvent :=
  [.newServer 3 true, .pollIn 3, .accept 7 true [] [.accept 4, .accept 99, .accept 99], .acceptDone, .pop,
    .respond 7 1 [8, 1] true, .respond 7 1 [8, 1] true, .handled, .pollOut 7, .turn, .turn, .turn, .turn]

/-- The peer reads them on descriptor 5, cut in another place. -/
def pingChunks : List RecvAnswer :=
  [.data 20 ((pingBytes.tail ++ pingBytes).take 24), .data 0 (pingBytes.drop 6)]

def twoPackages : List IoEvent :=
  [.newClient 5 true pingChunks [], .pollIn 5, .turn, .turn, .turn, .turn, .turn]

/-- Where the two processes are then. -/
def answeredState : IoThread 9 9 := ((system 9 9 100).run (new 9 9) twoAnswers).getD (new 9 9)

def receivedState : IoThread 9 9 := ((system 9 9 100).run (new 9 9) twoPackages).getD (new 9 9)

theorem answers_conveyed_ping :
    (packages receivedState.log 0).length = 2 ∧
      AtRest answeredState receivedState 1 0 (sentOf (outgoings 9 9 100 twoAnswers) 1) pingChunks ∧
      (packages receivedState.log 0).length = (answersOf (outgoings 9 9 100 twoAnswers) 1).length ∧
      ∀ (i : ℕ) (p : Message), (packages receivedState.log 0)[i]? = some p →
        ∃ a, (answersOf (outgoings 9 9 100 twoAnswers) 1)[i]? = some a ∧
          Carries pingProtobuf pingProtocol pingProtocol 100 a p := by
  have hencodes : Encodes pingProtobuf pingProtocol twoAnswers := by
    intro fd msgid payload pollout h
    simp only [twoAnswers, List.mem_cons, IoEvent.respond.injEq, reduceCtorEq, List.not_mem_nil, false_or, or_false,
      or_self] at h
    obtain ⟨-, rfl, rfl, -⟩ := h
    exact ⟨0, [.scalar (.bool true)], rfl, rfl⟩
  have hscript : (scripts 9 9 100 twoPackages)[0]? = some pingChunks := by decide +kernel
  have hsent : sentOf (outgoings 9 9 100 twoAnswers) 1 = streamBytes pingChunks := by decide +kernel
  have hwaiting : (answeredState.sockets 7).map (fun s => (s.conn, s.sender.sendmq.items.length)) = some (1, 0) := by
    decide +kernel
  have hreading : (receivedState.sockets 5).map (fun s => (s.conn, s.readmessage.isNone, streamBytes s.recvScript)) =
      some (0, true, []) := by decide +kernel
  have hcontrol : receivedState.control = .idle := by decide +kernel
  have hrest : AtRest answeredState receivedState 1 0 (sentOf (outgoings 9 9 100 twoAnswers) 1) pingChunks := by
    refine ⟨?_, hsent.symm, ?_⟩
    · obtain ⟨s, hs, hvalue⟩ := Option.map_eq_some_iff.1 hwaiting
      simp only [Prod.mk.injEq, List.length_eq_zero_iff] at hvalue
      exact ⟨7, s, hs, hvalue⟩
    · obtain ⟨s, hs, hvalue⟩ := Option.map_eq_some_iff.1 hreading
      simp only [Prod.mk.injEq, Option.isNone_iff_eq_none] at hvalue
      exact ⟨5, s, hs, hvalue.1, by simp [hcontrol], hvalue.2⟩
  have hrun : (system 9 9 100).run (new 9 9) twoAnswers = some answeredState := by
    rw [answeredState]
    exact Machine.run_eq_getD (by decide +kernel) _
  have hrun' : (system 9 9 100).run (new 9 9) twoPackages = some receivedState := by
    rw [receivedState]
    exact Machine.run_eq_getD (by decide +kernel) _
  obtain ⟨heach, hall⟩ := answers_conveyed pingProtobuf_inverse (fun _ _ h => h) hencodes hrun hrun' 1 0 hscript
    (hsent ▸ List.prefix_rfl)
  exact ⟨by decide +kernel, hrest, hall hrest, heach⟩

end Slam
