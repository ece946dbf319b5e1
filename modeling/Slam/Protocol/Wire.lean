import Slam.Protocol.Codec
import Slam.Io.Segmentation

/-!
# From one process to another

The bytes of an encoded message, read by a peer that has registered the same type under the message id.
Four places have a say in whether they arrive: the encoder, which writes the length into the header and
only reports one beyond `max_package_size`; the receiver, which accepts lengths from the header's own
size up to below `max_package_size`; `slam_protocol_decode`, which asserts at least the header's size;
and `MessageBuilderDecode`, which refuses an empty payload. The last theorem puts them together.
-/

namespace Slam

variable {S : Schema}

/-- `SerializeToArray` and `ParseFromArray` are inverse. -/
def Protobuf.Inverse (pb : Protobuf S) : Prop :=
  ∀ t m bytes, pb.serialize t m = some bytes → pb.parse t bytes = some m

/-- The peer accepts the bytes as exactly one frame, however they are cut, and decodes it to `m` under
the id `msgid`: the message goes to its handler, and the decoder returns true if that returns. -/
def Delivered (pb : Protobuf S) (P : SlamProtocol) (maxPackageSize : ℕ) (msgid : ℤ)
    (m : List ProtoValue) (buf : List Byte) : Prop :=
  ∀ (Q : Type) (pushBack : Q → Message → Option Q) (readmq : Q), HasRoom pushBack 1 readmq →
  ∀ (fd : ℤ) (script : List RecvAnswer), Delivers [buf] script → ∀ n, scriptWeight script < n →
    let run := pollReads pushBack maxPackageSize fd n (.new readmq script)
    (∀ e ∈ run.1, e.rc = true) ∧ ∃ frame name, run.2.pushed = [frame] ∧ frame.buf = buf ∧
      P.findName msgid = some name ∧
      ∀ (outcome : CallOutcome) (L : LuaState), ∃ rc L',
        (slamProtocolDecode pb P outcome frame).run L = (.ok (.event msgid m rc), L') ∧
        ((L.registry (cstring name)).isFunction = true → rc = !outcome.raised)

/-! ### The package -/

section Package

variable {pb : Protobuf S} {P : SlamProtocol} {msgid : ℤ} {t : ℕ} {m : List ProtoValue}
  {payload : List Byte}

/-- The header that the peer reads. -/
theorem ofBytes_encodedMessage (ht : P.messages msgid = some t) (hlen : payload.length < 2 ^ 31)
    (fd : ℤ) : RawMessage.ofBytes (encodedMessage fd msgid payload).buf =
      ⟨rawmessageSize + payload.length, 0, msgid, 0, payload⟩ := by
  have hsome : (P.messages msgid).isSome := by rw [ht]; rfl
  obtain ⟨hlo, hhi, -⟩ := P.named hsome
  have hsize : rawmessageSize + payload.length < 2 ^ 32 := by
    simp only [rawmessageSize, msglenSize]
    omega
  have hmsgid : -2 ^ 31 ≤ msgid ∧ msgid < 2 ^ 31 := by
    simp only [maxMessageId] at hhi
    omega
  unfold encodedMessage
  rw [Nat.mod_eq_of_lt hsize]
  exact RawMessage.ofBytes_bytes ⟨hsize, by norm_num, hmsgid, by norm_num⟩

/-- What the peer decodes a complete frame with these bytes to. -/
theorem decodedPackage_encodedMessage (ht : P.messages msgid = some t)
    (hlen : payload.length < 2 ^ 31) {fd : ℤ} {frame : Message}
    (hbuf : frame.buf = (encodedMessage fd msgid payload).buf) (hfull : frame.bytesize = frame.bufsize) :
    decodedPackage pb P frame =
      if payload = [] then none else (pb.parse t payload).map fun m => (t, m) := by
  have hraw := ofBytes_encodedMessage ht hlen fd
  rw [← hbuf] at hraw
  simp only [decodedPackage, hraw, hfull, decoded, ht, Nat.le_add_right, and_self, if_true,
    Nat.add_sub_cancel_left, List.take_length, Option.bind_some, gt_iff_lt, List.length_pos_iff]
  by_cases hempty : payload = [] <;> simp [hempty]

/-- The bytes are a frame if the payload fits a package. -/
theorem frame_encodedMessage (ht : P.messages msgid = some t) (hlen : payload.length < 2 ^ 31)
    (fd : ℤ) {maxPackageSize : ℕ} (hmax : rawmessageSize + payload.length < maxPackageSize) :
    Frame maxPackageSize (encodedMessage fd msgid payload).buf := by
  have hraw := congrArg RawMessage.len (ofBytes_encodedMessage ht hlen fd)
  have hsize := encodedMessage_length fd msgid payload
  refine ⟨?_, ?_, ?_⟩
  · rw [hsize]
    exact hraw
  · rw [hsize]
    exact Nat.le_add_right _ _
  · rw [hsize]
    exact hmax

end Package

/-! ### Delivery -/

/-- A queue that accepts everything has room. -/
theorem hasRoom_unit (k : ℕ) (q : Unit) : HasRoom (fun (_ : Unit) _ => some ()) k q := by
  induction k with
  | zero => trivial
  | succ k ih => exact fun _ => ⟨(), rfl, ih⟩

/-- All bytes at once. -/
theorem delivers_whole (b : Byte) (bs : List Byte) : Delivers [b :: bs] [.data b bs] :=
  ⟨by simp [RecvAnswer.bytes], by simp [Quiet], ⟨nofun, trivial⟩⟩

/-- In a run all of whose calls return true, what is pushed is complete and fits a package. -/
theorem pushed_sized {Q : Type} {pushBack : Q → Message → Option Q} {maxPackageSize : ℕ} {fd : ℤ}
    {readmq : Q} {script : List RecvAnswer} {n : ℕ}
    (hrc : ∀ e ∈ (pollReads pushBack maxPackageSize fd n (.new readmq script)).1, e.rc = true)
    {frame : Message}
    (hframe : frame ∈ (pollReads pushBack maxPackageSize fd n (.new readmq script)).2.pushed) :
    frame.bytesize = frame.bufsize ∧ frame.buf.length < maxPackageSize := by
  have hsound := ((Receiver.Sound.new maxPackageSize fd readmq script).pollReads pushBack n).2 hrc
  obtain ⟨hsized, hfull⟩ := hsound.complete frame hframe
  exact ⟨hfull, hsized.buf_length ▸ hsized.lt_max⟩

section Delivery

variable {pb : Protobuf S} {P : SlamProtocol} {msgid : ℤ} {t : ℕ} {m : List ProtoValue}
  {payload : List Byte}

/-- A payload that is not empty and fits a package is delivered. -/
theorem delivered_of_fits (hinverse : pb.Inverse) (ht : P.messages msgid = some t)
    (hs : pb.serialize t m = some payload) (hpayload : payload ≠ []) {maxPackageSize : ℕ}
    (hmax : rawmessageSize + payload.length < maxPackageSize) (fd : ℤ) :
    Delivered pb P maxPackageSize msgid m (encodedMessage fd msgid payload).buf := by
  intro Q pushBack readmq hroom fd' script hscript n hn
  have hlen := pb.serialize_length hs
  have hframes : ∀ f ∈ [(encodedMessage fd msgid payload).buf], Frame maxPackageSize f := by
    intro f hf
    rw [List.mem_singleton.1 hf]
    exact frame_encodedMessage ht hlen fd hmax
  have hbetween : (Receiver.new readmq script).Between maxPackageSize fd'
      [(encodedMessage fd msgid payload).buf] := Receiver.Between.new hscript readmq
  have hfor : (Receiver.new readmq script).RoomFor pushBack
      [(encodedMessage fd msgid payload).buf] := hroom
  have hfull := hfor.pollReads hbetween.sound hframes n
  have hpushed := pushed_of_delivers hscript hframes readmq hn hfull
  -- What the parser knows has a name, so the event gets as far as the handler.
  obtain ⟨name, hname⟩ := SlamProtocol.exists_findName ht
  refine ⟨(hbetween.pollReads hframes n hfull).1, _, name, hpushed, rfl, hname, fun outcome L => ?_⟩
  have hdecoded : decodedPackage pb P (frameMessage fd' (encodedMessage fd msgid payload).buf) =
      some (t, m) := by
    have hbuf : (frameMessage fd' (encodedMessage fd msgid payload).buf).buf =
        (encodedMessage fd msgid payload).buf := rfl
    rw [decodedPackage_encodedMessage ht hlen hbuf rfl, if_neg hpayload, hinverse t m payload hs]
    rfl
  obtain ⟨rc, L', ws, hrun, -, hrc⟩ := run_slamProtocolDecode_of_some hdecoded outcome L
  have hmsgid := congrArg RawMessage.msgid (ofBytes_encodedMessage ht hlen fd)
  simp only [frameMessage] at hrun hrc
  rw [hmsgid] at hrun hrc
  exact ⟨rc, L', hrun, hrc name hname⟩

/-- A payload that is delivered is not empty and fits a package. -/
theorem fits_of_delivered (ht : P.messages msgid = some t) (hs : pb.serialize t m = some payload)
    {maxPackageSize : ℕ} {fd : ℤ}
    (h : Delivered pb P maxPackageSize msgid m (encodedMessage fd msgid payload).buf) :
    payload ≠ [] ∧ rawmessageSize + payload.length < maxPackageSize := by
  have hlen := pb.serialize_length hs
  have hsize := encodedMessage_length fd msgid payload
  obtain ⟨b, bs, hcons⟩ : ∃ b bs, (encodedMessage fd msgid payload).buf = b :: bs := by
    refine List.exists_cons_of_length_pos ?_
    rw [hsize]
    exact encodedMessage_bufsize_pos fd msgid payload
  have hscript : Delivers [(encodedMessage fd msgid payload).buf] [.data b bs] := by
    rw [hcons]
    exact delivers_whole b bs
  -- One delivery is enough to see both conditions: all bytes at once, to a queue that takes everything.
  obtain ⟨hrc, frame, name, hpushed, hbuf, -, hdecode⟩ := h Unit (fun _ _ => some ()) () (hasRoom_unit 1 ()) 0
    [.data b bs] hscript _ (Nat.lt_succ_self _)
  have hmem : frame ∈ [frame] := List.mem_singleton_self frame
  rw [← hpushed] at hmem
  obtain ⟨hfull, hmax⟩ := pushed_sized hrc hmem
  rw [hbuf, hsize] at hmax
  refine ⟨fun hempty => ?_, hmax⟩
  have hnone : decodedPackage pb P frame = none := by
    rw [decodedPackage_encodedMessage ht hlen hbuf hfull, if_pos hempty]
  obtain ⟨rc, L', hrun, -⟩ := hdecode ⟨false, .nil, fun _ => .nil, fun _ => .nil⟩
    ⟨[], fun _ => .nil, fun _ => .nil⟩
  obtain ⟨r, hrun', herror⟩ := run_slamProtocolDecode_of_none hnone
    ⟨false, .nil, fun _ => .nil, fun _ => .nil⟩ ⟨[], fun _ => .nil, fun _ => .nil⟩
  rw [hrun] at hrun'
  cases herror _ (Prod.mk.inj hrun').1.symm

end Delivery

/-- **When encoder and decoder agree on the wire.** For every registered type and every table that
`slam_protocol_encode` turns into a message, a peer that has registered the same type accepts the bytes
as one frame and decodes it to the same id and the same message if and only if the serialised message is
not empty and, with the header, stays below `max_package_size`. -/
theorem slamProtocolEncode_delivered_iff (pb : Protobuf S) (hinverse : pb.Inverse) (rt : LuaRuntime)
    (fuel : ℕ) (P P' : SlamProtocol) (fd msgid : ℤ) (hpeer : P'.messages msgid = P.messages msgid)
    (maxPackageSize : ℕ) (L L' : LuaState) (m : List ProtoValue) (message : Message)
    (h : (slamProtocolEncode pb rt fuel P fd msgid).run L = (.ok (some (m, message)), L')) :
    Delivered pb P' maxPackageSize msgid m message.buf ↔
      ∃ t payload, P.messages msgid = some t ∧ pb.serialize t m = some payload ∧ payload ≠ [] ∧
        rawmessageSize + payload.length < maxPackageSize := by
  obtain ⟨t, payload, ht, hs, rfl⟩ := slamProtocolEncode_eq_some h
  have ht' := hpeer.trans ht
  constructor
  · intro hdelivered
    obtain ⟨hpayload, hmax⟩ := fits_of_delivered ht' hs hdelivered
    exact ⟨t, payload, ht, hs, hpayload, hmax⟩
  · rintro ⟨t₁, payload₁, ht₁, hs₁, hpayload, hmax⟩
    cases ht.symm.trans ht₁
    cases hs.symm.trans hs₁
    exact delivered_of_fits hinverse ht' hs hpayload hmax fd

/-- A stack with a table of the given entries on top. -/
def tableState (es : LuaEntries) : LuaState := ⟨[.table es], fun _ => .nil, fun _ => .nil⟩

theorem pingProtobuf_inverse : pingProtobuf.Inverse := by
  intro t m bytes h
  simp only [pingProtobuf] at h
  split at h
  · rename_i b
    cases h
    cases b <;> rfl
  · cases h

/-- `{v = true}` arrives. -/
theorem slamProtocolEncode_delivered_ping :
    Delivered pingProtobuf pingProtocol 100 1 [.scalar (.bool true)] (encodedMessage 7 1 [8, 1]).buf := by
  have hencode : (slamProtocolEncode pingProtobuf ascendingRuntime 1 pingProtocol 7 1).run
      (tableState [(.string (asciiBytes "v"), .boolean true)]) =
      (.ok (some ([.scalar (.bool true)], encodedMessage 7 1 [8, 1])),
        tableState [(.string (asciiBytes "v"), .boolean true)]) := rfl
  refine (slamProtocolEncode_delivered_iff pingProtobuf pingProtobuf_inverse ascendingRuntime 1
    pingProtocol pingProtocol 7 1 rfl 100 _ _ _ _ hencode).2 ⟨0, [8, 1], rfl, rfl, ?_, ?_⟩
  · exact List.cons_ne_nil _ _
  · decide

/-- The empty table is encoded to a package without payload, which the peer does not decode. -/
theorem slamProtocolEncode_empty_not_delivered :
    (slamProtocolEncode pingProtobuf ascendingRuntime 1 pingProtocol 7 1).run (tableState []) =
      (.ok (some ([.scalar (.bool false)], encodedMessage 7 1 [])), tableState []) ∧
    ¬ Delivered pingProtobuf pingProtocol 100 1 [.scalar (.bool false)] (encodedMessage 7 1 []).buf := by
  refine ⟨rfl, fun h => ?_⟩
  have ht : pingProtocol.messages 1 = some 0 := rfl
  have hs : pingProtobuf.serialize 0 [.scalar (.bool false)] = some [] := rfl
  exact (fits_of_delivered ht hs h).1 rfl

end Slam
