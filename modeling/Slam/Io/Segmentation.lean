import Slam.Io.Framing

/-!
# Delivery and segmentation

A well-formed stream is a concatenation of frames. Frames are a prefix code: each states its own
length in its first four bytes, so a stream can be cut into frames in one way only
(`frames_prefix`). Since receiving conserves the stream, the messages pushed in a run are
determined by the stream alone, provided that no call returns false.

A call returns false on a well-formed stream in one case only, besides a full queue: when `recv`
would block after one, two or three bytes of a length. The source says so (`read len of message
not enough, as a reading error`) and drops the connection. Hence delivery is independent of
segmentation for the scripts that answer `EAGAIN` at no such place.
-/

namespace Slam

/-! ### Frames -/

/-- A well-formed frame: its header states its own length, within the limits. -/
structure Frame (maxPackageSize : ℕ) (f : List Byte) : Prop where
  len_eq : leValue (f.take msglenSize) = f.length
  min_le : packageMinSize ≤ f.length
  lt_max : f.length < maxPackageSize

/-- The message that a frame becomes. -/
def frameMessage (fd : ℤ) (f : List Byte) : Message :=
  ⟨fd, .protobufPackage, f.length, f.length, f⟩

/-- The stream offset `o` lies strictly inside the length of one of the frames. -/
def InLen (frames : List (List Byte)) (o : ℕ) : Prop :=
  ∃ before f after, frames = before ++ f :: after ∧
    before.flatten.length < o ∧ o < before.flatten.length + msglenSize

theorem Frame.msglenSize_le {maxPackageSize : ℕ} {f : List Byte} (h : Frame maxPackageSize f) :
    msglenSize ≤ f.length := le_trans (by decide) h.min_le

/-- Two frames at the start of one stream are the same frame. -/
theorem Frame.eq_of_append {maxPackageSize : ℕ} {f g x y : List Byte}
    (hf : Frame maxPackageSize f) (hg : Frame maxPackageSize g) (h : f ++ x = g ++ y) : f = g := by
  have hlen : f.take msglenSize = g.take msglenSize := by
    have htake := congrArg (List.take msglenSize) h
    rwa [List.take_append_of_le_length hf.msglenSize_le,
      List.take_append_of_le_length hg.msglenSize_le] at htake
  exact (List.append_inj h (by rw [← hf.len_eq, hlen, hg.len_eq])).1

/-- **Frames are a prefix code**: frames at the start of a stream of frames are its first ones. -/
theorem frames_prefix {maxPackageSize : ℕ} {as frames : List (List Byte)} {x : List Byte}
    (has : ∀ f ∈ as, Frame maxPackageSize f) (hframes : ∀ f ∈ frames, Frame maxPackageSize f)
    (h : as.flatten ++ x = frames.flatten) :
    ∃ rest, frames = as ++ rest ∧ x = rest.flatten := by
  induction as generalizing frames with
  | nil => exact ⟨frames, rfl, by simpa using h⟩
  | cons a as ih =>
    have ha := has a (by simp)
    cases frames with
    | nil =>
      have hlen := congrArg List.length h
      have hpos := ha.msglenSize_le
      simp only [List.flatten_cons, List.flatten_nil, List.length_append, List.length_nil] at hlen
      simp only [msglenSize] at hpos
      omega
    | cons f frames =>
      rw [List.flatten_cons, List.flatten_cons, List.append_assoc] at h
      obtain rfl := ha.eq_of_append (hframes f (by simp)) h
      obtain ⟨rest, hrest, hx⟩ := ih (fun g hg => has g (by simp [hg]))
        (fun g hg => hframes g (by simp [hg])) (List.append_cancel_left h)
      exact ⟨rest, by rw [hrest, List.cons_append], hx⟩

/-! ### Scripts without errors -/

/-- The script has no end of file and no error. -/
def Quiet (script : List RecvAnswer) : Prop := ∀ a ∈ script, a ≠ .eof ∧ a ≠ .error

/-- From the stream offset `o` on, the script answers `EAGAIN` at no offset in `P`. -/
def EagainAvoids (P : ℕ → Prop) : ℕ → List RecvAnswer → Prop
  | _, [] => True
  | o, a :: script => (a = .eagain → ¬ P o) ∧ EagainAvoids P (o + a.bytes.length) script

section Calm

variable {P : ℕ → Prop} {o : ℕ}

theorem recv_calm {len : ℕ} {s s' : List RecvAnswer} {r : RecvResult} (hq : Quiet s)
    (ha : EagainAvoids P o s) (h : recv len s = (r, s')) :
    r ≠ .lost ∧ r ≠ .failed ∧ Quiet s' ∧ EagainAvoids P (o + r.chunk.length) s' ∧
      (r = .wouldblock → s' = [] ∨ ¬ P o) := by
  match s with
  | [] => cases h; exact ⟨by simp, by simp, by simp [Quiet], trivial, fun _ => .inl rfl⟩
  | .eof :: s => exact absurd rfl (hq .eof (by simp)).1
  | .error :: s => exact absurd rfl (hq .error (by simp)).2
  | .eintr :: s => cases h; exact ⟨by simp, by simp, fun a h => hq a (by simp [h]), ha.2, by simp⟩
  | .eagain :: s =>
    cases h
    exact ⟨by simp, by simp, fun a h => hq a (by simp [h]), ha.2, fun _ => .inr (ha.1 rfl)⟩
  | .data b bs :: s =>
    simp only [recv] at h
    split at h
    · cases h
      exact ⟨by simp, by simp, fun a h => hq a (by simp [h]), ha.2, by simp⟩
    · rename_i b' bs' hdrop
      cases h
      refine ⟨by simp, by simp, ?_, ⟨by simp, ?_⟩, by simp⟩
      · intro a hmem
        rcases List.mem_cons.1 hmem with rfl | hmem
        · simp
        · exact hq a (by simp [hmem])
      · -- the rest of a split answer ends at the same offset
        have hlens := congrArg List.length (List.take_append_drop len (b :: bs))
        rw [List.length_append, hdrop] at hlens
        have hoff : o + ((b :: bs).take len).length + (b' :: bs').length =
            o + (b :: bs).length := by omega
        simp only [RecvResult.chunk, RecvAnswer.bytes, hoff]
        exact ha.2

/-- On a quiet script reading does not fail, and it stops early only where `recv` would block. -/
theorem readBytes_calm (n : ℕ) {s : List RecvAnswer} (buf : List Byte) (hq : Quiet s)
    (ha : EagainAvoids P o s) :
    ∃ got s', readBytes n s buf = (some (buf ++ got), s') ∧ Quiet s' ∧
      EagainAvoids P (o + got.length) s' ∧
      ((buf ++ got).length < n → s' = [] ∨ ¬ P (o + got.length)) := by
  fun_induction readBytes n s buf generalizing o with
  | case1 s buf hroom s₁ hr => exact absurd rfl (recv_calm hq ha hr).1
  | case2 s buf hroom s₁ hr ih =>
    obtain ⟨-, -, hq₁, ha₁, -⟩ := recv_calm hq ha hr
    exact ih hq₁ ha₁
  | case3 s buf hroom s₁ hr =>
    obtain ⟨-, -, hq₁, ha₁, hblock⟩ := recv_calm hq ha hr
    exact ⟨[], s₁, by simp, hq₁, ha₁, fun _ => hblock rfl⟩
  | case4 s buf hroom s₁ hr => exact absurd rfl (recv_calm hq ha hr).2.1
  | case5 s buf hroom chunk s₁ hr ih =>
    obtain ⟨-, -, hq₁, ha₁, -⟩ := recv_calm hq ha hr
    obtain ⟨got, s', hread, hq', ha', hstop⟩ := ih hq₁ ha₁
    refine ⟨chunk ++ got, s', by rw [hread, List.append_assoc], hq', ?_, ?_⟩
    · simpa [RecvResult.chunk, add_assoc] using ha'
    · simpa [RecvResult.chunk, add_assoc, List.append_assoc] using hstop
  | case6 s buf hroom =>
    exact ⟨[], s, by simp, hq, ha, fun hlt => absurd (by simpa using hlt) hroom⟩

end Calm

/-! ### Runs on a stream of frames -/

/-- The script delivers the frames without error, and never blocks inside a length. -/
structure Delivers (frames : List (List Byte)) (script : List RecvAnswer) : Prop where
  stream_eq : streamBytes script = frames.flatten
  quiet : Quiet script
  avoids : EagainAvoids (InLen frames) 0 script

/-- A receiver in the middle of a stream of frames. -/
structure Receiver.Between {Q : Type*} (maxPackageSize : ℕ) (fd : ℤ) (frames : List (List Byte))
    (r : Receiver Q) : Prop where
  sound : r.Sound maxPackageSize fd frames.flatten
  quiet : Quiet r.script
  avoids : EagainAvoids (InLen frames) (r.pushed.flatMap Message.buf ++ r.pending).length r.script

section Between

variable {Q : Type*} {pushBack : Q → Message → Option Q} {maxPackageSize : ℕ} {fd : ℤ}
  {frames : List (List Byte)} {r r' : Receiver Q}

theorem Receiver.Between.new {script : List RecvAnswer} (h : Delivers frames script) (q : Q) :
    (Receiver.new q script).Between maxPackageSize fd frames where
  sound := by rw [← h.stream_eq]; exact Receiver.Sound.new _ _ q script
  quiet := h.quiet
  avoids := by simpa [Receiver.new, Receiver.pending] using h.avoids

/-- The messages pushed so far are those of the first frames; the pending part and the script make
up the others. -/
theorem Receiver.Sound.pushed_eq (h : r.Sound maxPackageSize fd frames.flatten)
    (hframes : ∀ f ∈ frames, Frame maxPackageSize f) :
    ∃ done rest, frames = done ++ rest ∧ r.pushed = done.map (frameMessage fd) ∧
      r.pending ++ streamBytes r.script = rest.flatten := by
  have hframed : ∀ f ∈ r.pushed.map Message.buf, Frame maxPackageSize f := by
    intro f hf
    obtain ⟨m, hm, rfl⟩ := List.mem_map.1 hf
    obtain ⟨hs, -⟩ := h.complete m hm
    have hlen := hs.buf_length
    exact ⟨by rw [hs.len_eq, hlen], hlen ▸ hs.min_le, hlen ▸ hs.lt_max⟩
  have hstream : (r.pushed.map Message.buf).flatten ++ (r.pending ++ streamBytes r.script) =
      frames.flatten := by
    rw [h.conserved, List.flatMap_def, List.append_assoc]
  obtain ⟨rest, hrest, hx⟩ := frames_prefix hframed hframes hstream
  refine ⟨_, rest, hrest, ?_, hx⟩
  -- A pushed message is determined by its buffer.
  rw [List.map_map, List.map_congr_left (g := id), List.map_id]
  intro m hm
  obtain ⟨hs, hfull⟩ := h.complete m hm
  have hlen := hs.buf_length
  cases m
  simp only at hfull hlen
  simp [frameMessage, hs.fd_eq.symm, hs.type_eq.symm, hfull, hlen]

/-- Reading keeps the receiver between frames. -/
theorem Receiver.Between.read (h : r.Between maxPackageSize fd frames) {n : ℕ} {got : List Byte}
    {s' : List RecvAnswer} (hread : readBytes n r.script [] = (some got, s'))
    (hsound : r'.Sound maxPackageSize fd frames.flatten) (hscript : r'.script = s') :
    r'.Between maxPackageSize fd frames := by
  obtain ⟨got', s'', hread', hq, ha, -⟩ := readBytes_calm n [] h.quiet h.avoids
  rw [hread, List.nil_append] at hread'
  cases hread'
  subst hscript
  refine ⟨hsound, hq, ?_⟩
  -- both offsets are the length of the stream less what the script still holds
  obtain ⟨_, rfl, hstream, -⟩ := readBytes_spec hread (Nat.zero_le _)
  have hold := congrArg List.length h.sound.conserved
  have hnew := congrArg List.length hsound.conserved
  rw [hstream] at hold
  have hoff : (r'.pushed.flatMap Message.buf ++ r'.pending).length =
      (r.pushed.flatMap Message.buf ++ r.pending).length + got.length := by
    simp only [List.length_append] at hold hnew ⊢
    omega
  rw [hoff]
  exact ha

/-- On a stream of frames the second stage ends only where `recv` would block or the queue is
full, and a message left behind by a blocked read is incomplete. -/
theorem Receiver.Between.body (h : r.Between maxPackageSize fd frames) {m : Message}
    (hm : r.readmessage = some m) {e : Option PollReadEnd}
    (hbody : pollReadBody pushBack m r = (e, r')) :
    e = some .mqFull ∨
    (e = none ∨ e = some .wouldblock ∧ ∀ m, r'.readmessage = some m → m.bytesize < m.bufsize) ∧
      r'.Between maxPackageSize fd frames := by
  have hsound := (h.sound.body hm hbody).2
  rcases pollReadBody_cases pushBack m r with ⟨hassert, he⟩ | ⟨-, -, he⟩ | ⟨q, hfull, -, he⟩ |
    ⟨s', -, hread, he⟩ | ⟨s', hlt, hread, he⟩ | ⟨bytes, s', -, hread, -, hfit, he⟩ <;>
    rw [he] at hbody <;> cases hbody
  · exact absurd (h.sound.underway m hm).bytesize_le hassert
  · exact .inl rfl
  · have hs := hsound (.inl rfl)
    refine .inr ⟨.inl rfl, hs, h.quiet, ?_⟩
    -- pushing the message moves its bytes from `pending` to `pushed`
    have hall : m.buf.take m.bytesize = m.buf := List.take_of_length_le (by
      rw [(h.sound.underway m hm).buf_length, hfull])
    simpa [Receiver.pending, hm, hall] using h.avoids
  · obtain ⟨got, s₁, hgot, -⟩ := readBytes_calm (m.bufsize - m.bytesize) [] h.quiet h.avoids
    rw [hread] at hgot
    cases hgot
  · refine .inr ⟨.inr ⟨rfl, fun m' hm' => ?_⟩, h.read hread (hsound (.inr rfl)) rfl⟩
    rw [hm] at hm'
    cases hm'
    exact hlt
  · exact .inr ⟨.inl rfl, h.read hread (hsound (.inl rfl)) rfl⟩

/-- On a stream of frames the first stage blocks before a frame or allocates its message. -/
theorem Receiver.Between.len (h : r.Between maxPackageSize fd frames)
    (hframes : ∀ f ∈ frames, Frame maxPackageSize f) (hnone : r.readmessage = none) :
    (∃ s', readBytes msglenSize r.script [] = (some [], s') ∧
      pollReadLen maxPackageSize fd r.script = (.error .wouldblock, s')) ∨
    (∃ len s', readBytes msglenSize r.script [] = (some len, s') ∧ len.length = msglenSize ∧
      packageMinSize ≤ leValue len ∧ leValue len < maxPackageSize ∧
      pollReadLen maxPackageSize fd r.script =
        (.ok ((Message.new fd .protobufPackage (leValue len)).receive len), s')) := by
  obtain ⟨done, rest, hsplit, hpushed, hrest⟩ := h.sound.pushed_eq hframes
  have hpending : r.pending = [] := by simp [Receiver.pending, hnone]
  rw [hpending, List.nil_append] at hrest
  have hoffset : (r.pushed.flatMap Message.buf ++ r.pending).length = done.flatten.length := by
    rw [hpushed, hpending, List.append_nil, List.flatMap_def, List.map_map]
    simp [Function.comp_def, frameMessage]
  obtain ⟨got, s₁, hgot, -, -, hstop⟩ := readBytes_calm msglenSize [] h.quiet h.avoids
  rw [List.nil_append] at hgot hstop
  obtain ⟨_, rfl, hstream, -⟩ := readBytes_spec hgot (Nat.zero_le _)
  -- bytes that were read belong to the next frame
  have hnext : 0 < got.length → ∃ f after, rest = f :: after ∧ Frame maxPackageSize f ∧
      got ++ streamBytes s₁ = f ++ after.flatten := by
    intro hpos
    cases rest with
    | nil =>
      rw [hrest, List.flatten_nil, eq_comm, List.append_eq_nil_iff] at hstream
      simp [hstream.1] at hpos
    | cons f after =>
      exact ⟨f, after, rfl, hframes f (by simp [hsplit]), by
        rw [← hstream, hrest, List.flatten_cons]⟩
  have hvalue : got.length = msglenSize →
      packageMinSize ≤ leValue got ∧ leValue got < maxPackageSize := by
    intro hlen
    obtain ⟨f, after, -, hf, happ⟩ := hnext (by rw [hlen]; decide)
    have htake := congrArg (List.take msglenSize) happ
    rw [List.take_append_of_le_length hlen.ge, List.take_of_length_le hlen.le,
      List.take_append_of_le_length hf.msglenSize_le] at htake
    rw [htake, hf.len_eq]
    exact ⟨hf.min_le, hf.lt_max⟩
  rcases pollReadLen_cases maxPackageSize fd r.script with ⟨s', hread, he⟩ | ⟨s', hread, he⟩ |
    ⟨len, s', hread, hpos, hshort, he⟩ | ⟨len, s', hread, hlen, hlow, he⟩ |
    ⟨len, s', hread, hlen, hhigh, he⟩ | ⟨len, s', hread, hlen, hmin, hmax, he⟩ <;>
    rw [hgot] at hread <;> cases hread
  · exact .inl ⟨s₁, hgot, he⟩
  · exfalso
    obtain ⟨f, after, hcons, hf, happ⟩ := hnext hpos
    rcases hstop hshort with hend | hout
    · -- the script cannot end inside a frame
      have hlens := congrArg List.length happ
      have := hf.msglenSize_le
      simp only [hend, streamBytes_nil, List.length_append, List.length_nil] at hlens
      omega
    · exact hout ⟨done, f, after, by rw [hsplit, hcons], by omega, by omega⟩
  · exact absurd (hvalue hlen).1 (not_le.2 hlow)
  · exact absurd (hvalue hlen).2 (not_lt.2 hhigh)
  · exact .inr ⟨got, s₁, hgot, hlen, hmin, hmax, he⟩

/-- On a stream of frames a turn of the loop ends only where `recv` would block or the queue is
full. -/
theorem Receiver.Between.turn (h : r.Between maxPackageSize fd frames)
    (hframes : ∀ f ∈ frames, Frame maxPackageSize f) {e : Option PollReadEnd}
    (hturn : pollReadTurn pushBack maxPackageSize fd r = (e, r')) :
    e = some .mqFull ∨
    (e = none ∨ e = some .wouldblock ∧ ∀ m, r'.readmessage = some m → m.bytesize < m.bufsize) ∧
      r'.Between maxPackageSize fd frames := by
  unfold pollReadTurn at hturn
  split at hturn
  · rename_i m hm
    exact h.body hm hturn
  · rename_i hnone
    rcases h.len hframes hnone with ⟨s', hread, he⟩ | ⟨len, s', hread, hlen, hmin, hmax, he⟩ <;>
      rw [he] at hturn <;> simp only at hturn
    · cases hturn
      exact .inr ⟨.inr ⟨rfl, by simp [hnone]⟩, h.read hread (h.sound.idle hread) rfl⟩
    · exact (h.read hread (h.sound.len hnone hread hlen hmin hmax) rfl).body rfl hturn

/-- On a stream of frames a call returns true unless the queue is full. -/
theorem Receiver.Between.pollRead (h : r.Between maxPackageSize fd frames)
    (hframes : ∀ f ∈ frames, Frame maxPackageSize f) {e : PollReadEnd}
    (hcall : pollRead pushBack maxPackageSize fd r = (e, r')) :
    e = .mqFull ∨ e = .wouldblock ∧ (∀ m, r'.readmessage = some m → m.bytesize < m.bufsize) ∧
      r'.Between maxPackageSize fd frames := by
  fun_induction Slam.pollRead pushBack maxPackageSize fd r with
  | case1 r e₁ r₁ hturn =>
    cases hcall
    rcases h.turn hframes hturn with hfull | ⟨hcont | ⟨hblock, hpart⟩, hb⟩
    · exact .inl (Option.some.inj hfull)
    · cases hcont
    · exact .inr ⟨Option.some.inj hblock, hpart, hb⟩
  | case2 r r₁ hturn ih =>
    rcases h.turn hframes hturn with hfull | ⟨-, hb⟩
    · cases hfull
    · exact ih hb hcall

end Between

/-! ### Progress -/

section Progress

variable {Q : Type*} {pushBack : Q → Message → Option Q} {maxPackageSize : ℕ} {fd : ℤ}
  {r r' : Receiver Q}

theorem pollReadBody_script {m : Message} {e : Option PollReadEnd}
    (h : pollReadBody pushBack m r = (e, r')) (he : e = none ∨ e = some .wouldblock) :
    scriptWeight r'.script ≤ scriptWeight r.script ∧
      (e = some .wouldblock → r.script ≠ [] → scriptWeight r'.script < scriptWeight r.script) := by
  rcases pollReadBody_cases pushBack m r with ⟨-, h'⟩ | ⟨-, -, h'⟩ | ⟨q, -, -, h'⟩ | ⟨s', -, -, h'⟩ |
    ⟨s', hlt, hread, h'⟩ | ⟨bytes, s', -, hread, hpos, -, h'⟩ <;> rw [h'] at h <;> cases h
  · simp at he
  · simp at he
  · exact ⟨le_rfl, nofun⟩
  · simp at he
  · obtain ⟨_, -, -, -, hle, hprogress⟩ := readBytes_spec hread (Nat.zero_le _)
    exact ⟨hle, fun _ hne => hprogress hne (by simp only [List.length_nil]; omega)⟩
  · exact ⟨(readBytes_weight_lt hread hpos.ne').le, nofun⟩

theorem pollReadTurn_script {e : Option PollReadEnd}
    (h : pollReadTurn pushBack maxPackageSize fd r = (e, r'))
    (he : e = none ∨ e = some .wouldblock) :
    scriptWeight r'.script ≤ scriptWeight r.script ∧
      (e = some .wouldblock → r.script ≠ [] → scriptWeight r'.script < scriptWeight r.script) := by
  unfold pollReadTurn at h
  split at h
  · exact pollReadBody_script h he
  · rcases pollReadLen_cases maxPackageSize fd r.script with ⟨s', hread, h'⟩ | ⟨s', hread, h'⟩ |
      ⟨len, s', hread, _, _, h'⟩ | ⟨len, s', hread, _, _, h'⟩ | ⟨len, s', hread, _, _, h'⟩ |
      ⟨len, s', hread, hlen, _, _, h'⟩ <;> rw [h'] at h <;> simp only at h
    · cases h; simp at he
    · cases h
      obtain ⟨_, -, -, -, hle, hprogress⟩ := readBytes_spec hread (Nat.zero_le _)
      exact ⟨hle, fun _ hne => hprogress hne (by decide)⟩
    · cases h; simp at he
    · cases h; simp at he
    · cases h; simp at he
    · have hlt := readBytes_weight_lt hread (by rw [hlen]; decide)
      have hbody := (pollReadBody_script h he).1
      simp only at hbody
      exact ⟨by omega, fun _ _ => by omega⟩

/-- A call that returns true uses up part of the script. -/
theorem pollRead_script {e : PollReadEnd}
    (h : pollRead pushBack maxPackageSize fd r = (e, r')) (he : e = .wouldblock) :
    scriptWeight r'.script ≤ scriptWeight r.script ∧
      (r.script ≠ [] → scriptWeight r'.script < scriptWeight r.script) := by
  fun_induction Slam.pollRead pushBack maxPackageSize fd r with
  | case1 r e₁ r₁ hturn =>
    cases h
    obtain ⟨hle, hlt⟩ := pollReadTurn_script hturn (.inr (by rw [he]))
    exact ⟨hle, hlt (by rw [he])⟩
  | case2 r r₁ hturn ih =>
    obtain ⟨ih₁, ih₂⟩ := ih h
    obtain ⟨hle, -⟩ := pollReadTurn_script hturn (.inl rfl)
    refine ⟨by omega, fun hne => ?_⟩
    by_cases hnil : r₁.script = []
    · -- a nonempty script has positive weight
      cases hs : r.script with
      | nil => exact absurd hs hne
      | cons a s =>
        simp only [hnil, scriptWeight_nil, scriptWeight_cons, RecvAnswer.weight] at ih₁ ⊢
        omega
    · exact lt_of_lt_of_le (ih₂ hnil) hle

end Progress

/-! ### Whole runs -/

section Runs

variable {Q : Type*} {pushBack : Q → Message → Option Q} {maxPackageSize : ℕ} {fd : ℤ}
  {frames : List (List Byte)} {r : Receiver Q}

/-- A run of calls on a stream of frames in which the queue is never full. -/
theorem Receiver.Between.pollReads (h : r.Between maxPackageSize fd frames)
    (hframes : ∀ f ∈ frames, Frame maxPackageSize f) (n : ℕ)
    (hfull : .mqFull ∉ (Slam.pollReads pushBack maxPackageSize fd n r).1) :
    (∀ e ∈ (Slam.pollReads pushBack maxPackageSize fd n r).1, e.rc = true) ∧
      (Slam.pollReads pushBack maxPackageSize fd n r).2.Between maxPackageSize fd frames ∧
      (scriptWeight r.script ≤ n →
        (Slam.pollReads pushBack maxPackageSize fd n r).2.script = []) ∧
      (0 < n → ∀ m, (Slam.pollReads pushBack maxPackageSize fd n r).2.readmessage = some m →
        m.bytesize < m.bufsize) := by
  induction n generalizing r with
  | zero =>
    refine ⟨nofun, h, fun hw => ?_, fun hn => absurd hn (lt_irrefl _)⟩
    simp only [Slam.pollReads]
    cases hs : r.script with
    | nil => rfl
    | cons a s => simp [hs, RecvAnswer.weight] at hw
  | succ n ih =>
    rcases hcall : Slam.pollRead pushBack maxPackageSize fd r with ⟨e, r₁⟩
    rcases h.pollRead hframes hcall with rfl | ⟨rfl, hpart, hb⟩
    · simp [Slam.pollReads, hcall, PollReadEnd.rc] at hfull
    · obtain ⟨hle, hlt⟩ := pollRead_script hcall rfl
      have hrc : PollReadEnd.wouldblock.rc = true := rfl
      simp only [Slam.pollReads, hcall, hrc, if_true, List.mem_cons, not_or, forall_eq_or_imp,
        true_and] at hfull ⊢
      obtain ⟨ih₁, ih₂, ih₃, ih₄⟩ := ih hb hfull.2
      refine ⟨ih₁, ih₂, fun hw => ih₃ ?_, fun _ => ?_⟩
      · by_cases hnil : r.script = []
        · rw [hnil, scriptWeight_nil] at hle
          omega
        · have := hlt hnil
          omega
      · rcases Nat.eq_zero_or_pos n with rfl | hpos
        · exact hpart
        · exact ih₄ hpos

/-- A receiver that has used up its script and left no complete message has pushed everything. -/
theorem Receiver.Between.pushed_all (h : r.Between maxPackageSize fd frames)
    (hframes : ∀ f ∈ frames, Frame maxPackageSize f) (hend : r.script = [])
    (hpart : ∀ m, r.readmessage = some m → m.bytesize < m.bufsize) :
    r.pushed = frames.map (frameMessage fd) := by
  obtain ⟨done, rest, hsplit, hpushed, hrest⟩ := h.sound.pushed_eq hframes
  rw [hend, streamBytes_nil, List.append_nil] at hrest
  cases rest with
  | nil => rw [hpushed, hsplit, List.append_nil]
  | cons f after =>
    exfalso
    have hf := hframes f (by simp [hsplit])
    have hlen := congrArg List.length hrest
    have hpos := hf.msglenSize_le
    rw [List.flatten_cons, List.length_append] at hlen
    cases hm : r.readmessage with
    | none =>
      simp only [Receiver.pending, hm, List.length_nil, msglenSize] at hlen hpos
      omega
    | some m =>
      -- the pending part starts with the length of `f`, yet is shorter than it
      have hs := h.sound.underway m hm
      have hsz := hs.buf_length
      have hge := hs.len_le
      have hlt := hpart m hm
      have htake := congrArg (List.take msglenSize) hrest
      simp only [Receiver.pending, hm, List.flatten_cons, List.take_take, min_eq_left hge,
        List.take_append_of_le_length hpos, List.length_take] at htake hlen
      have := hf.len_eq
      rw [← htake, hs.len_eq] at this
      omega

theorem pushed_of_delivers {script : List RecvAnswer} (h : Delivers frames script)
    (hframes : ∀ f ∈ frames, Frame maxPackageSize f) (q : Q) {n : ℕ}
    (hn : scriptWeight script < n)
    (hfull : .mqFull ∉ (pollReads pushBack maxPackageSize fd n (.new q script)).1) :
    (pollReads pushBack maxPackageSize fd n (.new q script)).2.pushed =
      frames.map (frameMessage fd) := by
  obtain ⟨-, hb, hend, hpart⟩ := (Receiver.Between.new h q).pollReads hframes n hfull
  exact hb.pushed_all hframes (hend hn.le) (hpart (by omega))

end Runs

/-! ### A queue with room -/

/-- The queue accepts `k` more messages, whatever they are. -/
def HasRoom {Q : Type*} (pushBack : Q → Message → Option Q) : ℕ → Q → Prop
  | 0, _ => True
  | k + 1, q => ∀ m, ∃ q', pushBack q m = some q' ∧ HasRoom pushBack k q'

/-- There is room for the frames that have not been pushed yet. -/
def Receiver.RoomFor {Q : Type*} (pushBack : Q → Message → Option Q) (frames : List (List Byte))
    (r : Receiver Q) : Prop :=
  HasRoom pushBack (frames.length - r.pushed.length) r.readmq

section Room

variable {Q : Type*} {pushBack : Q → Message → Option Q} {maxPackageSize : ℕ} {fd : ℤ}
  {frames : List (List Byte)} {r r' : Receiver Q}

/-- A complete message belongs to a frame that has not been pushed yet. -/
theorem Receiver.Sound.pushed_lt (h : r.Sound maxPackageSize fd frames.flatten)
    (hframes : ∀ f ∈ frames, Frame maxPackageSize f) {m : Message} (hm : r.readmessage = some m)
    (hfull : m.bytesize = m.bufsize) : r.pushed.length < frames.length := by
  obtain ⟨done, rest, hsplit, hpushed, hrest⟩ := h.pushed_eq hframes
  have hs := h.underway m hm
  cases rest with
  | nil =>
    have hlen := congrArg List.length hrest
    have hsz := hs.buf_length
    have hmin := hs.min_le
    simp only [Receiver.pending, hm, List.flatten_nil, List.length_nil, List.length_append,
      List.length_take] at hlen
    simp only [packageMinSize, rawmessageSize, msglenSize] at hmin
    omega
  | cons f rest =>
    rw [hpushed, hsplit, List.length_map, List.length_append, List.length_cons]
    omega

/-- While frames are missing, the queue accepts a message and keeps room for the others. -/
theorem Receiver.RoomFor.accepts (hroom : r.RoomFor pushBack frames)
    (hlt : r.pushed.length < frames.length) (m : Message) :
    ∃ q, pushBack r.readmq m = some q ∧
      HasRoom pushBack (frames.length - (r.pushed ++ [m]).length) q := by
  have hk : frames.length - r.pushed.length = frames.length - (r.pushed ++ [m]).length + 1 := by
    rw [List.length_append, List.length_singleton]
    omega
  rw [Receiver.RoomFor, hk] at hroom
  exact hroom m

theorem Receiver.RoomFor.body (hroom : r.RoomFor pushBack frames)
    (h : r.Sound maxPackageSize fd frames.flatten)
    (hframes : ∀ f ∈ frames, Frame maxPackageSize f) {m : Message} (hm : r.readmessage = some m)
    {e : Option PollReadEnd} (hbody : pollReadBody pushBack m r = (e, r')) :
    e ≠ some .mqFull ∧ r'.RoomFor pushBack frames := by
  rcases pollReadBody_cases pushBack m r with ⟨-, he⟩ | ⟨hfull, hpush, he⟩ | ⟨q, hfull, hpush, he⟩ |
    ⟨s', -, -, he⟩ | ⟨s', -, -, he⟩ | ⟨bytes, s', -, -, -, -, he⟩ <;>
    rw [he] at hbody <;> cases hbody
  · exact ⟨nofun, hroom⟩
  · obtain ⟨q', hq', -⟩ := hroom.accepts (h.pushed_lt hframes hm hfull) m
    rw [hpush] at hq'
    cases hq'
  · obtain ⟨q', hq', hrest⟩ := hroom.accepts (h.pushed_lt hframes hm hfull) m
    rw [hpush] at hq'
    cases hq'
    exact ⟨nofun, hrest⟩
  · exact ⟨nofun, hroom⟩
  · exact ⟨nofun, hroom⟩
  · exact ⟨nofun, hroom⟩

theorem Receiver.RoomFor.turn (hroom : r.RoomFor pushBack frames)
    (h : r.Sound maxPackageSize fd frames.flatten)
    (hframes : ∀ f ∈ frames, Frame maxPackageSize f) {e : Option PollReadEnd}
    (hturn : pollReadTurn pushBack maxPackageSize fd r = (e, r')) :
    e ≠ some .mqFull ∧ r'.RoomFor pushBack frames := by
  unfold pollReadTurn at hturn
  split at hturn
  · rename_i m hm
    exact hroom.body h hframes hm hturn
  · rename_i hnone
    rcases pollReadLen_cases maxPackageSize fd r.script with ⟨s', -, he⟩ | ⟨s', -, he⟩ |
      ⟨len, s', -, -, -, he⟩ | ⟨len, s', -, -, -, he⟩ | ⟨len, s', -, -, -, he⟩ |
      ⟨len, s', hread, hlen, hmin, hmax, he⟩ <;> rw [he] at hturn <;> simp only at hturn
    · cases hturn; exact ⟨nofun, hroom⟩
    · cases hturn; exact ⟨nofun, hroom⟩
    · cases hturn; exact ⟨nofun, hroom⟩
    · cases hturn; exact ⟨nofun, hroom⟩
    · cases hturn; exact ⟨nofun, hroom⟩
    · have hsound := h.len hnone hread hlen hmin hmax
      refine Receiver.RoomFor.body ?_ hsound hframes rfl hturn
      exact hroom

theorem Receiver.RoomFor.pollRead (hroom : r.RoomFor pushBack frames)
    (h : r.Sound maxPackageSize fd frames.flatten)
    (hframes : ∀ f ∈ frames, Frame maxPackageSize f) {e : PollReadEnd}
    (hcall : pollRead pushBack maxPackageSize fd r = (e, r')) :
    e ≠ .mqFull ∧ r'.RoomFor pushBack frames := by
  fun_induction Slam.pollRead pushBack maxPackageSize fd r with
  | case1 r e₁ r₁ hturn =>
    cases hcall
    obtain ⟨hne, hroom'⟩ := hroom.turn h hframes hturn
    exact ⟨fun he => hne (by rw [he]), hroom'⟩
  | case2 r r₁ hturn ih =>
    exact ih (hroom.turn h hframes hturn).2 ((h.turn hturn).2 (.inl rfl)) hcall

/-- With room for all frames, no call finds the queue full. -/
theorem Receiver.RoomFor.pollReads (hroom : r.RoomFor pushBack frames)
    (h : r.Sound maxPackageSize fd frames.flatten)
    (hframes : ∀ f ∈ frames, Frame maxPackageSize f) (n : ℕ) :
    .mqFull ∉ (Slam.pollReads pushBack maxPackageSize fd n r).1 := by
  induction n generalizing r with
  | zero => exact List.not_mem_nil
  | succ n ih =>
    rcases hcall : Slam.pollRead pushBack maxPackageSize fd r with ⟨e, r₁⟩
    obtain ⟨hne, hroom'⟩ := hroom.pollRead h hframes hcall
    by_cases hrc : e.rc = true
    · have hrest := ih hroom' ((h.pollRead hcall).2 hrc)
      simp only [Slam.pollReads, hcall, hrc, if_true, List.mem_cons, not_or]
      exact ⟨hne.symm, hrest⟩
    · simp only [Slam.pollReads, hcall, hrc]
      simpa using hne.symm

end Room

/-- **Delivery does not depend on segmentation**, as long as `recv` does not block inside a length.
On two scripts that deliver the same frames, in runs in which the queue is never full, no call
returns false; and once the calls have used up their scripts, both runs have pushed the same
messages. -/
theorem segmentation_independent {Q : Type*} (pushBack : Q → Message → Option Q)
    (maxPackageSize : ℕ) (fd : ℤ) (frames : List (List Byte))
    (hframes : ∀ f ∈ frames, Frame maxPackageSize f) (script₁ script₂ : List RecvAnswer)
    (h₁ : Delivers frames script₁) (h₂ : Delivers frames script₂) (q₁ q₂ : Q) (n₁ n₂ : ℕ)
    (hfull₁ : .mqFull ∉ (pollReads pushBack maxPackageSize fd n₁ (.new q₁ script₁)).1)
    (hfull₂ : .mqFull ∉ (pollReads pushBack maxPackageSize fd n₂ (.new q₂ script₂)).1) :
    (∀ e ∈ (pollReads pushBack maxPackageSize fd n₁ (.new q₁ script₁)).1, e.rc = true) ∧
      (∀ e ∈ (pollReads pushBack maxPackageSize fd n₂ (.new q₂ script₂)).1, e.rc = true) ∧
      (scriptWeight script₁ < n₁ → scriptWeight script₂ < n₂ →
        (pollReads pushBack maxPackageSize fd n₁ (.new q₁ script₁)).2.pushed =
          (pollReads pushBack maxPackageSize fd n₂ (.new q₂ script₂)).2.pushed) := by
  refine ⟨((Receiver.Between.new h₁ q₁).pollReads hframes n₁ hfull₁).1,
    ((Receiver.Between.new h₂ q₂).pollReads hframes n₂ hfull₂).1, fun hn₁ hn₂ => ?_⟩
  rw [pushed_of_delivers h₁ hframes q₁ hn₁ hfull₁, pushed_of_delivers h₂ hframes q₂ hn₂ hfull₂]

/-- One frame of eighteen bytes that arrives as two bytes, `EAGAIN`, sixteen bytes: the first call
returns false, although the stream is well formed, `recv` reports no error and the queue has
room. -/
theorem split_len_returns_false :
    let frame : List Byte := 18 :: 0 :: 0 :: 0 :: List.replicate 14 7
    let script : List RecvAnswer := [.data 18 [0], .eagain, .data 0 (0 :: List.replicate 14 7)]
    let run := pollReads BoundedFifo.push 100 5 1 (.new (.empty Message 4) script)
    Frame 100 frame ∧ streamBytes script = frame ∧ Quiet script ∧ .mqFull ∉ run.1 ∧
      ¬ ∀ e ∈ run.1, e.rc = true := by
  refine ⟨⟨by decide, by decide, by decide⟩, by decide, ?_, by decide +kernel, by decide +kernel⟩
  simp [Quiet]

/-- The same frame whole, and cut inside its body with `EAGAIN` at the cut. -/
theorem segmentation_independent_body :
    (pollReads BoundedFifo.push 100 5 30 (.new (.empty Message 4)
      [.data 18 (0 :: 0 :: 0 :: List.replicate 14 7)])).2.pushed =
    (pollReads BoundedFifo.push 100 5 30 (.new (.empty Message 4)
      [.data 18 [0, 0, 0, 7], .eagain, .data 7 (List.replicate 12 7)])).2.pushed := by
  have hframe : Frame 100 (18 :: 0 :: 0 :: 0 :: List.replicate 14 7) :=
    ⟨by decide, by decide, by decide⟩
  have hbefore : ¬ InLen [18 :: 0 :: 0 :: 0 :: List.replicate 14 7] 5 := by
    rintro ⟨before, f, after, hsplit, -, hlt⟩
    cases before with
    | nil => simp [msglenSize] at hlt
    | cons b before => simp at hsplit
  have hwhole : Delivers [18 :: 0 :: 0 :: 0 :: List.replicate 14 7]
      [.data 18 (0 :: 0 :: 0 :: List.replicate 14 7)] :=
    ⟨by decide, by simp [Quiet], by simp [EagainAvoids]⟩
  have hcut : Delivers [18 :: 0 :: 0 :: 0 :: List.replicate 14 7]
      [.data 18 [0, 0, 0, 7], .eagain, .data 7 (List.replicate 12 7)] :=
    ⟨by decide, by simp [Quiet], ⟨nofun, fun _ => hbefore, nofun, trivial⟩⟩
  exact (segmentation_independent BoundedFifo.push 100 5 _ (by simpa using hframe) _ _ hwhole hcut
    _ _ 30 30 (by decide +kernel) (by decide +kernel)).2.2 (by decide) (by decide)

end Slam
