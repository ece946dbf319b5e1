import Slam.Lib.Fifo

/-!
# `io/slam_message_queue.c`: the message ring buffer

The queue between the io thread and the worker, and the send queue of a socket, are ring buffers
of `maxsize` slots with 32-bit indices and counters. Every call starts with `ASSERT_QUEUE`; a
failed `assert` aborts the process and is `none` here.

`Ledger` is what the queue is for: a bounded fifo of `maxsize - 1` messages together with the
number of messages taken out so far. `replies_eq_iff` says exactly which call sequences the ring
buffer answers like the fifo. Three things can go wrong:

* `pop_front` advances `rindex` without `% maxsize` (`push_back` does reduce `windex`), so after
  `maxsize` pops `rindex` has left the ring and the next call aborts, unless the 32-bit increment
  itself wraps first;
* `number` compares 32-bit counters, and aborts while `write_number` has wrapped and
  `read_number` has not;
* with more than `2 ^ 32` slots, `windex + 1` wraps at `2 ^ 32` and the queue reports full early.
-/

namespace Slam

/-- The value kept by a `uint32_t`. -/
def uint32 (n : ℕ) : ℕ := n % 2 ^ 32

/-- `slam_message_queue_s`. The slots are allocated uninitialised; `none` stands for such a slot. -/
structure MessageQueue (α : Type*) where
  queue : ℕ → Option α
  maxsize : ℕ
  rindex : ℕ
  windex : ℕ
  readNumber : ℕ
  writeNumber : ℕ

namespace MessageQueue

variable {α : Type*}

/-- `slam_message_queue_new`, after its `assert(maxsize > 0)`. -/
def new (α : Type*) (maxsize : ℕ) : MessageQueue α := ⟨fun _ => none, maxsize, 0, 0, 0, 0⟩

/-- `ASSERT_QUEUE`: both indices lie on the ring. -/
def AssertQueue (mq : MessageQueue α) : Prop := mq.rindex < mq.maxsize ∧ mq.windex < mq.maxsize

instance (mq : MessageQueue α) : Decidable mq.AssertQueue := inferInstanceAs (Decidable (_ ∧ _))

/-- `slam_message_queue_push_back`: `false` means that the queue is full. -/
def pushBack (mq : MessageQueue α) (message : α) : Option (Bool × MessageQueue α) :=
  if mq.AssertQueue then
    let newindex := uint32 (mq.windex + 1) % mq.maxsize
    if newindex ≠ mq.rindex then
      some (true, { mq with
        queue := Function.update mq.queue mq.windex (some message)
        windex := newindex
        writeNumber := uint32 (mq.writeNumber + 1) })
    else some (false, mq)
  else none

/-- `slam_message_queue_empty`. -/
def empty (mq : MessageQueue α) : Option Bool :=
  if mq.AssertQueue then some (mq.rindex == mq.windex) else none

/-- `slam_message_queue_pop_front`: the null pointer is `none` inside the result. -/
def popFront (mq : MessageQueue α) : Option (Option α × MessageQueue α) :=
  if mq.AssertQueue then
    if mq.rindex ≠ mq.windex then
      some (mq.queue mq.rindex, { mq with
        readNumber := uint32 (mq.readNumber + 1)
        rindex := uint32 (mq.rindex + 1) })
    else some (none, mq)
  else none

/-- `slam_message_queue_front`. -/
def front (mq : MessageQueue α) : Option (Option α) :=
  if mq.AssertQueue then
    if mq.rindex ≠ mq.windex then some (mq.queue mq.rindex) else some none
  else none

/-- `slam_message_queue_number`; past its assertion the subtraction does not wrap. -/
def number (mq : MessageQueue α) : Option ℕ :=
  if mq.AssertQueue then
    if mq.readNumber ≤ mq.writeNumber then some (mq.writeNumber - mq.readNumber) else none
  else none

/-- The calls a client of the queue makes. -/
inductive Call (α : Type*)
  | pushBack (message : α)
  | popFront
  | front
  | empty
  | number

/-- What a call returns. -/
inductive Reply (α : Type*)
  | flag (b : Bool)
  | message (m : Option α)
  | count (n : ℕ)
  deriving DecidableEq

/-- One call on the ring buffer; `none` when an assertion fails. -/
def call (mq : MessageQueue α) : Call α → Option (Reply α × MessageQueue α)
  | .pushBack message => mq.pushBack message |>.map fun r => (.flag r.1, r.2)
  | .popFront => mq.popFront |>.map fun r => (.message r.1, r.2)
  | .front => mq.front |>.map fun m => (.message m, mq)
  | .empty => mq.empty |>.map fun b => (.flag b, mq)
  | .number => mq.number |>.map fun n => (.count n, mq)

/-- The replies to a sequence of calls; `none` when an assertion fails on the way. -/
def replies : MessageQueue α → List (Call α) → Option (List (Reply α))
  | _, [] => some []
  | mq, c :: cs => (mq.call c).bind fun r => (r.2.replies cs).map (r.1 :: ·)

/-! ### The bounded fifo the queue stands for -/

/-- A bounded fifo and the number of elements taken out of it so far. -/
structure Ledger (α : Type*) (cap : ℕ) where
  fifo : BoundedFifo α cap
  popped : ℕ

namespace Ledger

variable {cap : ℕ}

/-- Nothing held, nothing taken out yet. -/
def new (α : Type*) (cap : ℕ) : Ledger α cap := ⟨.empty α cap, 0⟩

/-- The number of elements held. -/
def held (l : Ledger α cap) : ℕ := l.fifo.items.length

/-- One call on the fifo. -/
def call (l : Ledger α cap) : Call α → Reply α × Ledger α cap
  | .pushBack m =>
    match l.fifo.push m with
    | some q => (.flag true, { l with fifo := q })
    | none => (.flag false, l)
  | .popFront =>
    match l.fifo.pop with
    | some (m, q) => (.message (some m), ⟨q, l.popped + 1⟩)
    | none => (.message none, l)
  | .front => (.message l.fifo.items.head?, l)
  | .empty => (.flag (l.fifo.items.isEmpty), l)
  | .number => (.count l.held, l)

/-- The replies of the fifo to a sequence of calls. -/
def replies : Ledger α cap → List (Call α) → List (Reply α)
  | _, [] => []
  | l, c :: cs => (l.call c).1 :: (l.call c).2.replies cs

end Ledger

/-- The ring buffer can answer this call like the fifo `l`. The first clause is about every
call, the others about the one they name. -/
def Answerable (maxsize : ℕ) {cap : ℕ} (l : Ledger α cap) (c : Call α) : Prop :=
  (maxsize < 2 ^ 32 → l.popped < maxsize) ∧
    match c with
    | .pushBack _ => 2 ^ 32 < maxsize → l.held + 1 ≠ 2 ^ 32
    | .number => (l.popped + l.held) / 2 ^ 32 = l.popped / 2 ^ 32
    | _ => True

/-- Every call of the sequence is made when the ring buffer can answer it. -/
def AllAnswerable (maxsize : ℕ) {cap : ℕ} : Ledger α cap → List (Call α) → Prop
  | _, [] => True
  | l, c :: cs => Answerable maxsize l c ∧ AllAnswerable maxsize (l.call c).2 cs

/-! ### The simulation -/

/-- The number of slots in use before the indices come round: 32-bit indices cannot tell more
than `2 ^ 32` slots apart. -/
def ring (maxsize : ℕ) : ℕ := min maxsize (2 ^ 32)

/-- The ring buffer `mq` represents the fifo `l`. -/
structure Tracks (mq : MessageQueue α) {cap : ℕ} (l : Ledger α cap) : Prop where
  cap_eq : cap + 1 = mq.maxsize
  rindex_eq : mq.rindex = if mq.maxsize < 2 ^ 32 then l.popped else l.popped % 2 ^ 32
  windex_eq : mq.windex = (l.popped + l.held) % ring mq.maxsize
  readNumber_eq : mq.readNumber = l.popped % 2 ^ 32
  writeNumber_eq : mq.writeNumber = (l.popped + l.held) % 2 ^ 32
  held_lt : l.held < ring mq.maxsize
  popped_le : mq.maxsize < 2 ^ 32 → l.popped ≤ mq.maxsize
  slots : ∀ i < l.held, mq.queue ((l.popped + i) % ring mq.maxsize) = l.fifo.items[i]?

theorem tracks_new (maxsize : ℕ) (h : 0 < maxsize) :
    Tracks (new α maxsize) (Ledger.new α (maxsize - 1)) where
  cap_eq := by simp only [new]; omega
  rindex_eq := by simp only [new, Ledger.new, Nat.zero_mod]; exact (ite_self 0).symm
  windex_eq := by simp [new, Ledger.new, Ledger.held]
  readNumber_eq := by simp [new, Ledger.new]
  writeNumber_eq := by simp [new, Ledger.new, Ledger.held]
  held_lt := by simp [new, Ledger.new, Ledger.held, ring, h]
  popped_le := by simp [Ledger.new]
  slots := by simp [Ledger.new, Ledger.held]

section Tracks

variable {mq : MessageQueue α} {cap : ℕ} {l : Ledger α cap}

theorem Tracks.ring_pos (t : Tracks mq l) : 0 < ring mq.maxsize := by
  have := t.held_lt; omega

/-- While the read index is on the ring it is the number of pops modulo the ring. -/
theorem Tracks.rindex_mod (t : Tracks mq l) (halive : mq.maxsize < 2 ^ 32 → l.popped < mq.maxsize) :
    mq.rindex = l.popped % ring mq.maxsize := by
  rw [t.rindex_eq, ring]
  split_ifs with hsmall
  · rw [min_eq_left hsmall.le, Nat.mod_eq_of_lt (halive hsmall)]
  · rw [min_eq_right (not_lt.1 hsmall)]

theorem Tracks.assertQueue_iff (t : Tracks mq l) :
    mq.AssertQueue ↔ (mq.maxsize < 2 ^ 32 → l.popped < mq.maxsize) := by
  have hw : mq.windex < mq.maxsize := by
    rw [t.windex_eq]
    exact (Nat.mod_lt _ t.ring_pos).trans_le (min_le_left _ _)
  have hr := t.rindex_eq
  unfold AssertQueue
  split_ifs at hr with hsmall
  · rw [hr]
    exact ⟨fun h _ => h.1, fun h => ⟨h hsmall, hw⟩⟩
  · have : l.popped % 2 ^ 32 < 2 ^ 32 := Nat.mod_lt _ (by norm_num)
    simp only [hw, and_true, hsmall, false_implies, iff_true]
    omega

/-- The write index after a push. -/
theorem Tracks.newindex_eq (t : Tracks mq l) :
    uint32 (mq.windex + 1) % mq.maxsize = (l.popped + l.held + 1) % ring mq.maxsize := by
  have hpos := t.ring_pos
  rw [t.windex_eq, uint32]
  by_cases hsmall : mq.maxsize < 2 ^ 32
  · have hring : ring mq.maxsize = mq.maxsize := min_eq_left hsmall.le
    have hlt := Nat.mod_lt (l.popped + l.held) hpos
    rw [hring] at hlt ⊢
    rw [Nat.mod_eq_of_lt (show (l.popped + l.held) % mq.maxsize + 1 < 2 ^ 32 by omega),
      Nat.mod_add_mod]
  · have hring : ring mq.maxsize = 2 ^ 32 := min_eq_right (not_lt.1 hsmall)
    have hlt : (l.popped + l.held + 1) % 2 ^ 32 < 2 ^ 32 := Nat.mod_lt _ (by norm_num)
    rw [hring, Nat.mod_add_mod]
    exact Nat.mod_eq_of_lt (by omega)

theorem Tracks.full_iff (t : Tracks mq l) (halive : mq.maxsize < 2 ^ 32 → l.popped < mq.maxsize) :
    uint32 (mq.windex + 1) % mq.maxsize = mq.rindex ↔ l.held + 1 = ring mq.maxsize := by
  have hlt := t.held_lt
  rw [t.newindex_eq, t.rindex_mod halive]
  constructor
  · intro h
    by_contra hne
    have hinj := Nat.add_mod_ring_inj (m := ring mq.maxsize) (a := l.popped) (i := l.held + 1)
      (j := 0) (by omega) (by omega)
    rw [add_zero, ← add_assoc] at hinj
    exact Nat.succ_ne_zero _ (hinj.1 h)
  · intro h
    rw [add_assoc, h, Nat.add_mod_right]

theorem Tracks.empty_iff (t : Tracks mq l) (halive : mq.maxsize < 2 ^ 32 → l.popped < mq.maxsize) :
    mq.rindex = mq.windex ↔ l.held = 0 := by
  rw [t.windex_eq, t.rindex_mod halive]
  have h := Nat.add_mod_ring_inj (a := l.popped) (i := 0) (j := l.held) t.ring_pos t.held_lt
  rw [add_zero] at h
  rw [h, eq_comm]

/-- The slot at the read index holds the oldest message. -/
theorem Tracks.oldest (t : Tracks mq l) (halive : mq.maxsize < 2 ^ 32 → l.popped < mq.maxsize)
    (hne : 0 < l.held) : mq.queue mq.rindex = l.fifo.items.head? := by
  rw [t.rindex_mod halive, ← add_zero l.popped, t.slots 0 hne, List.head?_eq_getElem?]

/-- A push that finds room. -/
theorem Tracks.push (t : Tracks mq l) {m : α} {q : BoundedFifo α cap} (hq : l.fifo.push m = some q)
    (hroom : l.held + 1 < ring mq.maxsize) :
    Tracks { mq with
      queue := Function.update mq.queue mq.windex (some m)
      windex := uint32 (mq.windex + 1) % mq.maxsize
      writeNumber := uint32 (mq.writeNumber + 1) } { l with fifo := q } := by
  have hitems := (BoundedFifo.push_eq_some_iff.1 hq).2
  have hheld : (⟨q, l.popped⟩ : Ledger α cap).held = l.held + 1 := by simp [Ledger.held, hitems]
  refine ⟨t.cap_eq, t.rindex_eq, ?_, t.readNumber_eq, ?_, ?_, t.popped_le, ?_⟩
  · rw [t.newindex_eq, hheld, ← add_assoc]
  · simp only [hheld, uint32, t.writeNumber_eq, Nat.mod_add_mod, ← add_assoc]
  · rw [hheld]; exact hroom
  · intro i hi
    rw [hheld] at hi
    simp only [hitems]
    by_cases hlast : i = l.held
    · subst hlast
      rw [← t.windex_eq, Function.update_self]
      simp [Ledger.held]
    · -- an older slot is not the one written, since less than a lap is in use
      have hlt : i < l.held := by omega
      have hslot : (l.popped + i) % ring mq.maxsize ≠ mq.windex := by
        rw [t.windex_eq, Ne, Nat.add_mod_ring_inj (by omega) t.held_lt]
        exact hlast
      rw [Function.update_of_ne hslot, t.slots i hlt, List.getElem?_append_left hlt]

/-- A pop that finds a message. -/
theorem Tracks.pop (t : Tracks mq l) (halive : mq.maxsize < 2 ^ 32 → l.popped < mq.maxsize)
    {m : α} {q : BoundedFifo α cap} (hq : l.fifo.pop = some (m, q)) :
    Tracks { mq with
      readNumber := uint32 (mq.readNumber + 1)
      rindex := uint32 (mq.rindex + 1) } ⟨q, l.popped + 1⟩ := by
  have hitems := BoundedFifo.pop_eq_some_iff.1 hq
  have hheld : l.held = (⟨q, l.popped + 1⟩ : Ledger α cap).held + 1 := by
    simp [Ledger.held, hitems]
  have htotal : l.popped + l.held = l.popped + 1 + (⟨q, l.popped + 1⟩ : Ledger α cap).held := by
    omega
  refine ⟨t.cap_eq, ?_, ?_, ?_, ?_, ?_, ?_, ?_⟩
  · -- the increment is not reduced modulo `maxsize`, so it may leave the ring here
    simp only [t.rindex_eq, uint32]
    split_ifs with hsmall
    · have := halive hsmall
      exact Nat.mod_eq_of_lt (by omega)
    · rw [Nat.mod_add_mod]
  · rw [← htotal]; exact t.windex_eq
  · simp only [uint32, t.readNumber_eq, Nat.mod_add_mod]
  · rw [← htotal]; exact t.writeNumber_eq
  · have := t.held_lt
    simp only
    omega
  · intro hsmall
    have := halive hsmall
    simp only
    omega
  · intro i hi
    have hslot := t.slots (i + 1) (by omega)
    rw [hitems, List.getElem?_cons_succ] at hslot
    simpa only [add_assoc, add_comm 1 i] using hslot

/-- While the read index is on the ring, `number` passes its assertion exactly when the two
counters have wrapped equally often, and then it is the number of messages held. -/
theorem Tracks.number_eq (t : Tracks mq l)
    (halive : mq.maxsize < 2 ^ 32 → l.popped < mq.maxsize) :
    mq.number = if (l.popped + l.held) / 2 ^ 32 = l.popped / 2 ^ 32 then some l.held else none := by
  have hheld : l.held < 2 ^ 32 := t.held_lt.trans_le (min_le_right _ _)
  rw [number, if_pos (t.assertQueue_iff.2 halive), t.readNumber_eq, t.writeNumber_eq]
  have hw := Nat.div_add_mod (l.popped + l.held) (2 ^ 32)
  have hr := Nat.div_add_mod l.popped (2 ^ 32)
  have hle : l.popped / 2 ^ 32 ≤ (l.popped + l.held) / 2 ^ 32 :=
    Nat.div_le_div_right (Nat.le_add_right _ _)
  split_ifs with h1 h2 h2
  · rw [h2] at hw
    exact congrArg some (by omega)
  · exact absurd h1 (by omega)
  · exact absurd h1 (by omega)
  · rfl

/-- An answerable call gets the fifo's reply, and the simulation goes on. -/
theorem Tracks.call_answerable (t : Tracks mq l) {c : Call α} (h : Answerable mq.maxsize l c) :
    ∃ mq', mq.call c = some ((l.call c).1, mq') ∧ Tracks mq' (l.call c).2 := by
  obtain ⟨halive, hcall⟩ := h
  have hassert := t.assertQueue_iff.2 halive
  cases c with
  | pushBack m =>
    cases hq : l.fifo.push m with
    | some q =>
      have hcap := (BoundedFifo.push_eq_some_iff.1 hq).1
      have hroom : l.held + 1 < ring mq.maxsize := by
        have h1 := t.held_lt
        have h2 := t.cap_eq
        simp only [ring, Ledger.held] at h1 hcall ⊢
        omega
      have hne := mt (t.full_iff halive).1 hroom.ne
      refine ⟨_, ?_, by simpa only [Ledger.call, hq] using t.push hq hroom⟩
      simp only [call, pushBack, hassert, if_true, hne, ne_eq, not_false_eq_true, Option.map_some,
        Ledger.call, hq]
    | none =>
      have hcap := BoundedFifo.push_eq_none_iff.1 hq
      have hfull : l.held + 1 = ring mq.maxsize := by
        have h1 := t.held_lt
        have h2 := t.cap_eq
        simp only [ring, Ledger.held] at h1 ⊢
        omega
      refine ⟨mq, ?_, by simpa only [Ledger.call, hq] using t⟩
      simp only [call, pushBack, hassert, if_true, (t.full_iff halive).2 hfull, ne_eq,
        not_true_eq_false, if_false, Option.map_some, Ledger.call, hq]
  | popFront =>
    cases hq : l.fifo.pop with
    | some mq' =>
      obtain ⟨m, q⟩ := mq'
      have hitems := BoundedFifo.pop_eq_some_iff.1 hq
      have hheld : 0 < l.held := by simp [Ledger.held, hitems]
      have hne := mt (t.empty_iff halive).1 hheld.ne'
      have hold := t.oldest halive hheld
      rw [hitems, List.head?_cons] at hold
      refine ⟨_, ?_, by simpa only [Ledger.call, hq] using t.pop halive hq⟩
      simp only [call, popFront, hassert, if_true, hne, ne_eq, not_false_eq_true, Option.map_some,
        Ledger.call, hq, hold]
    | none =>
      have hheld : l.held = 0 := by simp [Ledger.held, BoundedFifo.pop_eq_none_iff.1 hq]
      refine ⟨mq, ?_, by simpa only [Ledger.call, hq] using t⟩
      simp only [call, popFront, hassert, if_true, (t.empty_iff halive).2 hheld, ne_eq,
        not_true_eq_false, if_false, Option.map_some, Ledger.call, hq]
  | front =>
    refine ⟨mq, ?_, t⟩
    by_cases hheld : l.held = 0
    · have hnil : l.fifo.items = [] := List.length_eq_zero_iff.1 hheld
      simp only [call, front, hassert, if_true, (t.empty_iff halive).2 hheld, ne_eq,
        not_true_eq_false, if_false, Option.map_some, Ledger.call, hnil, List.head?_nil]
    · have hne := mt (t.empty_iff halive).1 hheld
      simp only [call, front, hassert, if_true, hne, ne_eq, not_false_eq_true, Option.map_some,
        Ledger.call, t.oldest halive (Nat.pos_of_ne_zero hheld)]
  | empty =>
    refine ⟨mq, ?_, t⟩
    have hflag : (mq.rindex == mq.windex) = l.fifo.items.isEmpty := by
      rw [Bool.eq_iff_iff, beq_iff_eq, t.empty_iff halive, List.isEmpty_iff]
      exact List.length_eq_zero_iff
    simp only [call, empty, hassert, if_true, Option.map_some, Ledger.call, hflag]
  | number =>
    refine ⟨mq, ?_, t⟩
    simp only [call, t.number_eq halive, if_pos hcall, Option.map_some, Ledger.call]

/-- A call that is not answerable aborts or gets a reply the fifo does not give. -/
theorem Tracks.call_not_answerable (t : Tracks mq l) {c : Call α}
    (h : ¬ Answerable mq.maxsize l c) : (mq.call c).map Prod.fst ≠ some (l.call c).1 := by
  by_cases halive : mq.maxsize < 2 ^ 32 → l.popped < mq.maxsize
  · have hcall := fun h2 => h ⟨halive, h2⟩
    cases c with
    | pushBack m =>
      -- `windex + 1` has wrapped at `2 ^ 32`, short of the slots the fifo still has
      obtain ⟨hbig, hlast⟩ : 2 ^ 32 < mq.maxsize ∧ l.held + 1 = 2 ^ 32 := by
        by_contra hcon
        exact hcall fun hbig hlast => hcon ⟨hbig, hlast⟩
      have hfull : l.held + 1 = ring mq.maxsize := by simp only [ring]; omega
      have hroom : l.fifo.push m ≠ none := by
        rw [Ne, BoundedFifo.push_eq_none_iff]
        have h2 := t.cap_eq
        simp only [Ledger.held] at hlast
        omega
      obtain ⟨q, hq⟩ := Option.ne_none_iff_exists'.1 hroom
      simp [call, pushBack, t.assertQueue_iff.2 halive, (t.full_iff halive).2 hfull, Ledger.call,
        hq]
    | popFront => exact absurd trivial hcall
    | front => exact absurd trivial hcall
    | empty => exact absurd trivial hcall
    | number =>
      have hwrap : ¬ (l.popped + l.held) / 2 ^ 32 = l.popped / 2 ^ 32 := hcall
      simp only [call, t.number_eq halive, if_neg hwrap, Option.map_none]
      exact nofun
  · have hassert := mt t.assertQueue_iff.1 halive
    cases c <;> simp [call, pushBack, popFront, front, empty, number, hassert]

/-- The simulation along a whole sequence of calls. -/
theorem Tracks.replies_eq_iff (t : Tracks mq l) (cs : List (Call α)) :
    mq.replies cs = some (l.replies cs) ↔ AllAnswerable mq.maxsize l cs := by
  induction cs generalizing mq l with
  | nil => simp [MessageQueue.replies, Ledger.replies, AllAnswerable]
  | cons c cs ih =>
    by_cases h : Answerable mq.maxsize l c
    · obtain ⟨mq', hcall, ht⟩ := t.call_answerable h
      have hrest := ih ht
      rw [← ht.cap_eq, t.cap_eq] at hrest
      simp only [MessageQueue.replies, Ledger.replies, AllAnswerable, hcall, Option.bind_some, h,
        true_and, ← hrest]
      cases mq'.replies cs <;> simp
    · refine iff_of_false (fun he => ?_) fun he => h he.1
      apply t.call_not_answerable h
      simp only [MessageQueue.replies, Ledger.replies, Option.bind_eq_some_iff,
        Option.map_eq_some_iff, List.cons.injEq] at he
      obtain ⟨r, hr, _, _, hfst, _⟩ := he
      rw [hr, Option.map_some, hfst]

end Tracks

/-- **When the ring buffer is a bounded fifo.** From a new queue of `maxsize ≥ 1` slots, a
sequence of calls runs without a failed assertion and with the replies of a fifo of `maxsize - 1`
messages if and only if each of its calls is answerable. -/
theorem replies_new_eq_iff (maxsize : ℕ) (h : 0 < maxsize) (cs : List (Call α)) :
    (new α maxsize).replies cs = some ((Ledger.new α (maxsize - 1)).replies cs) ↔
      AllAnswerable maxsize (Ledger.new α (maxsize - 1)) cs :=
  (tracks_new maxsize h).replies_eq_iff cs

/-- A two-slot queue that has taken in and given out two messages aborts on the next call. -/
theorem replies_after_one_lap :
    ¬ ((new ℕ 2).replies [.pushBack 7, .popFront, .pushBack 8, .popFront, .empty] =
      some ((Ledger.new ℕ (2 - 1)).replies
        [.pushBack 7, .popFront, .pushBack 8, .popFront, .empty])) := by
  decide

/-- Ten slots, one message in, counted, and out again. -/
theorem replies_new_ten : 0 < 10 ∧
    (new ℕ 10).replies [.pushBack 7, .number, .popFront, .empty] =
      some ((Ledger.new ℕ (10 - 1)).replies [.pushBack 7, .number, .popFront, .empty]) :=
  ⟨by decide, (replies_new_eq_iff 10 (by decide) _).2 (by
    simp [AllAnswerable, Answerable, Ledger.call, Ledger.new, Ledger.held, BoundedFifo.push,
      BoundedFifo.empty, BoundedFifo.pop])⟩

end MessageQueue
end Slam
