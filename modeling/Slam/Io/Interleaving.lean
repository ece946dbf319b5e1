import Slam.Io.MessageQueue
import Slam.Lib.Machine

/-!
# `io/slam_message_queue.c` between two threads

One thread pushes and another one pops, and nothing locks the queue. Here a call is a sequence of accesses to what both
threads see, and the accesses of the two threads come in any order; each is done in program order and seen at once.

* the io thread calls `push_back` and `empty` on the queue of the worker, the worker `empty` and `pop_front`;
* the worker calls `push_back` on the send queue of a socket, the io thread `empty`, `front` and `pop_front`.

`linearizable` says that a queue without a lock still answers like the bounded fifo: each call takes effect at one access of
its own, `push_back` where it stores `windex` and `pop_front` where it stores `rindex`. C leaves open whether
`queue[rindex++]` stores `rindex` before it reads the slot. It does not matter, since the slot just left is the one that a
full ring keeps free. `aborts_iff` says when `ASSERT_QUEUE` fails.
-/

namespace Slam
namespace MessageQueue

variable {α : Type*}

/-! ### A call, access by access -/

/-- The two threads. -/
inductive Side
  | producer
  | consumer
  deriving DecidableEq

/-- The calls of the thread that pops. -/
inductive Take
  | popFront
  | front
  | empty

/-- Where the thread that pushes stands. -/
inductive Producer (α : Type*)
  | idle
  /-- In `push_back`, past `ASSERT_QUEUE`. -/
  | called (message : α)
  /-- Past the check that the queue is not full. -/
  | checked (message : α) (newindex : ℕ)
  /-- The message is in its slot. -/
  | stored (message : α) (newindex : ℕ)
  /-- `windex` is stored, `write_number` is not. -/
  | published (message : α)
  /-- In `empty`, past `ASSERT_QUEUE`. -/
  | asked

/-- Where the thread that pops stands. -/
inductive Consumer (α : Type*)
  | idle
  /-- Past `ASSERT_QUEUE`. -/
  | called (c : Take)
  /-- In `front`, past the check that the queue is not empty. -/
  | seen
  /-- In `pop_front`, past the check that the queue is not empty. -/
  | found
  /-- `read_number` is stored. -/
  | counted
  /-- The slot is read, `rindex` is not stored. -/
  | loaded (message : Option α)
  /-- `rindex` is stored, the slot `index` is not read. -/
  | advanced (index : ℕ)

/-- The queue, the two threads, and the calls they make. `log` lists the calls that have taken effect, in the order in which
they did, and `returned` the calls of each thread that have returned; the code keeps neither. -/
structure Shared (α : Type*) where
  mq : MessageQueue α
  producer : Producer α
  consumer : Consumer α
  /-- An assertion has failed. -/
  aborted : Bool
  log : List (Side × Call α × Reply α)
  returned : Side → List (Call α × Reply α)

/-- What happens next. -/
inductive Access (α : Type*)
  /-- `push_back` is called. -/
  | push (message : α)
  /-- The thread that pushes calls `empty`. -/
  | ask
  /-- The thread that pops makes a call. -/
  | take (c : Take)
  /-- The next access of the thread that pushes. -/
  | produce
  /-- The next access of the thread that pops; `early` means that `queue[rindex++]` stores `rindex` first. -/
  | consume (early : Bool)

namespace Shared

/-- `slam_message_queue_new`, before the threads start. -/
def new (α : Type*) (maxsize : ℕ) : Shared α := ⟨.new α maxsize, .idle, .idle, false, [], fun _ => []⟩

/-- A call takes effect. -/
def effect (s : Shared α) (side : Side) (c : Call α) (r : Reply α) : Shared α := { s with log := s.log ++ [(side, c, r)] }

/-- A call returns. -/
def answer (s : Shared α) (side : Side) (c : Call α) (r : Reply α) : Shared α :=
  { s with returned := Function.update s.returned side (s.returned side ++ [(c, r)]) }

/-- A call takes effect and returns. -/
def finish (s : Shared α) (side : Side) (c : Call α) (r : Reply α) : Shared α := (s.effect side c r).answer side c r

/-- Every call starts with `ASSERT_QUEUE`. -/
def start (s s' : Shared α) : Shared α := if s.mq.AssertQueue then s' else { s with aborted := true }

/-- The next access of `slam_message_queue_push_back`, or of `slam_message_queue_empty` in the same thread. -/
def produce (s : Shared α) : Option (Shared α) :=
  match s.producer with
  | .idle => none
  | .called m =>
    let newindex := uint32 (s.mq.windex + 1) % s.mq.maxsize
    if newindex ≠ s.mq.rindex then some { s with producer := .checked m newindex }
    else some ({ s with producer := .idle }.finish .producer (.pushBack m) (.flag false))
  | .checked m newindex =>
    some { s with
      mq := { s.mq with queue := Function.update s.mq.queue s.mq.windex (some m) }
      producer := .stored m newindex }
  | .stored m newindex =>
    some ({ s with mq := { s.mq with windex := newindex }, producer := .published m }.effect .producer (.pushBack m)
      (.flag true))
  | .published m =>
    some ({ s with mq := { s.mq with writeNumber := uint32 (s.mq.writeNumber + 1) }, producer := .idle }.answer .producer
      (.pushBack m) (.flag true))
  | .asked => some ({ s with producer := .idle }.finish .producer .empty (.flag (s.mq.rindex == s.mq.windex)))

/-- The next access of `slam_message_queue_pop_front`, `slam_message_queue_front` or `slam_message_queue_empty` in the thread
that pops. -/
def consume (s : Shared α) (early : Bool) : Option (Shared α) :=
  match s.consumer with
  | .idle => none
  | .called .empty => some ({ s with consumer := .idle }.finish .consumer .empty (.flag (s.mq.rindex == s.mq.windex)))
  | .called .front =>
    if s.mq.rindex ≠ s.mq.windex then some { s with consumer := .seen }
    else some ({ s with consumer := .idle }.finish .consumer .front (.message none))
  | .called .popFront =>
    if s.mq.rindex ≠ s.mq.windex then some { s with consumer := .found }
    else some ({ s with consumer := .idle }.finish .consumer .popFront (.message none))
  | .seen => some ({ s with consumer := .idle }.finish .consumer .front (.message (s.mq.queue s.mq.rindex)))
  | .found =>
    some { s with mq := { s.mq with readNumber := uint32 (s.mq.readNumber + 1) }, consumer := .counted }
  | .counted =>
    if early then
      some ({ s with mq := { s.mq with rindex := uint32 (s.mq.rindex + 1) }, consumer := .advanced s.mq.rindex }.effect
        .consumer .popFront (.message (s.mq.queue s.mq.rindex)))
    else some { s with consumer := .loaded (s.mq.queue s.mq.rindex) }
  | .loaded m =>
    some ({ s with mq := { s.mq with rindex := uint32 (s.mq.rindex + 1) }, consumer := .idle }.finish .consumer .popFront
      (.message m))
  | .advanced index => some ({ s with consumer := .idle }.answer .consumer .popFront (.message (s.mq.queue index)))

/-- One access; `none` when it cannot come next. -/
def step (s : Shared α) (e : Access α) : Option (Shared α) :=
  if s.aborted then none
  else
    match e, s.producer, s.consumer with
    | .push m, .idle, _ => some (s.start { s with producer := .called m })
    | .ask, .idle, _ => some (s.start { s with producer := .asked })
    | .take c, _, .idle => some (s.start { s with consumer := .called c })
    | .produce, _, _ => s.produce
    | .consume early, _, _ => s.consume early
    | _, _, _ => none

/-- The queue and its two threads as a machine. -/
def system (α : Type*) : Machine (Shared α) (Access α) := ⟨step⟩

/-- The thread that pushes reads the indices for `empty`. -/
def Asks (s : Shared α) (e : Access α) : Bool :=
  match e, s.producer with
  | .produce, .asked => true
  | _, _ => false

end Shared

/-- The access starts a call. -/
def Access.Starts : Access α → Prop
  | .push _ | .ask | .take _ => True
  | .produce | .consume _ => False

/-- What a thread knows of its calls: those that have taken effect. -/
def entries (log : List (Side × Call α × Reply α)) (side : Side) : List (Call α × Reply α) :=
  log.filterMap fun e => if e.1 = side then some e.2 else none

/-- The call of the thread that pushes that has taken effect and has not returned. -/
def Producer.pending : Producer α → List (Call α × Reply α)
  | .published m => [(.pushBack m, .flag true)]
  | _ => []

/-- The call of the thread that pops that has taken effect and has not returned. -/
def Consumer.pending (mq : MessageQueue α) : Consumer α → List (Call α × Reply α)
  | .advanced index => [(.popFront, .message (mq.queue index))]
  | _ => []

/-- The call of a thread that has taken effect and has not returned. -/
def Shared.pending (s : Shared α) : Side → List (Call α × Reply α)
  | .producer => s.producer.pending
  | .consumer => s.consumer.pending s.mq

/-- The calls that have taken effect, in their order. -/
def calls (log : List (Side × Call α × Reply α)) : List (Call α) := log.map fun e => e.2.1

/-- What they have been answered. -/
def answers (log : List (Side × Call α × Reply α)) : List (Reply α) := log.map fun e => e.2.2

@[simp] theorem calls_append (log log' : List (Side × Call α × Reply α)) : calls (log ++ log') = calls log ++ calls log' :=
  List.map_append

@[simp] theorem answers_append (log log' : List (Side × Call α × Reply α)) :
    answers (log ++ log') = answers log ++ answers log' :=
  List.map_append

theorem entries_concat_self (log : List (Side × Call α × Reply α)) (side : Side) (e : Call α × Reply α) :
    entries (log ++ [(side, e)]) side = entries log side ++ [e] := by
  simp [entries]

theorem entries_concat_of_ne {side side' : Side} (h : side ≠ side') (log : List (Side × Call α × Reply α))
    (e : Call α × Reply α) : entries (log ++ [(side, e)]) side' = entries log side' := by
  simp [entries, h]

/-! ### The fifo after a sequence of calls -/

namespace Ledger

variable {cap : ℕ}

/-- The fifo after a sequence of calls. -/
def after (l : Ledger α cap) : List (Call α) → Ledger α cap
  | [] => l
  | c :: cs => (l.call c).2.after cs

theorem after_append (l : Ledger α cap) (cs ds : List (Call α)) : l.after (cs ++ ds) = (l.after cs).after ds := by
  induction cs generalizing l with
  | nil => rfl
  | cons c cs ih => exact ih _

theorem replies_append (l : Ledger α cap) (cs ds : List (Call α)) :
    l.replies (cs ++ ds) = l.replies cs ++ (l.after cs).replies ds := by
  induction cs generalizing l with
  | nil => rfl
  | cons c cs ih =>
    simp only [List.cons_append, replies, after]
    rw [ih]

/-- The read index of a queue of `maxsize` slots that holds this is on the ring. -/
def OnRing (l : Ledger α cap) (maxsize : ℕ) : Prop := maxsize < 2 ^ 32 → l.popped < maxsize

theorem call_pushBack {l : Ledger α cap} {m : α} (h : l.held < cap) : ∃ q : BoundedFifo α cap,
    l.fifo.push m = some q ∧ l.call (.pushBack m) = (.flag true, { l with fifo := q }) := by
  have hroom : l.fifo.push m ≠ none := fun hnone => h.ne (BoundedFifo.push_eq_none_iff.1 hnone)
  obtain ⟨q, hq⟩ := Option.ne_none_iff_exists'.1 hroom
  exact ⟨q, hq, by simp only [call, hq]⟩

theorem call_pushBack_full {l : Ledger α cap} {m : α} (h : l.held = cap) :
    l.call (.pushBack m) = (.flag false, l) := by
  have hnone : l.fifo.push m = none := BoundedFifo.push_eq_none_iff.2 h
  simp only [call, hnone]

theorem call_popFront {l : Ledger α cap} (h : 0 < l.held) : ∃ (m : α) (q : BoundedFifo α cap),
    l.fifo.pop = some (m, q) ∧ l.call .popFront = (.message l.fifo.items.head?, ⟨q, l.popped + 1⟩) := by
  have hsome : l.fifo.pop ≠ none := fun hnone => by
    have hnil := BoundedFifo.pop_eq_none_iff.1 hnone
    simp [held, hnil] at h
  obtain ⟨⟨m, q⟩, hq⟩ := Option.ne_none_iff_exists'.1 hsome
  refine ⟨m, q, hq, ?_⟩
  simp only [call, hq, BoundedFifo.pop_eq_some_iff.1 hq, List.head?_cons]

theorem call_popFront_empty {l : Ledger α cap} (h : l.held = 0) : l.call .popFront = (.message none, l) := by
  have hnone : l.fifo.pop = none := BoundedFifo.pop_eq_none_iff.2 (List.length_eq_zero_iff.1 h)
  simp only [call, hnone]

end Ledger

/-! ### What holds between two accesses -/

section Settled

variable {mq : MessageQueue α} {cap n : ℕ} {l : Ledger α cap}

/-- The queue as it is once the calls have returned: its counters brought up to date, and no more slots than 32-bit indices
tell apart. -/
def settled (mq : MessageQueue α) {cap : ℕ} (l : Ledger α cap) : MessageQueue α :=
  { mq with
    maxsize := ring mq.maxsize
    readNumber := l.popped % 2 ^ 32
    writeNumber := (l.popped + l.held) % 2 ^ 32 }

@[simp] theorem ring_ring (n : ℕ) : ring (ring n) = ring n := by simp [ring]

theorem onRing_ring : l.OnRing (ring n) ↔ l.OnRing n := by
  simp only [Ledger.OnRing, ring]
  omega

theorem mod_ring (w n : ℕ) : uint32 w % ring n = uint32 w % n := by
  have hlt : uint32 w < 2 ^ 32 := Nat.mod_lt _ (by norm_num)
  by_cases hn : n ≤ 2 ^ 32
  · rw [ring, min_eq_left hn]
  · rw [ring, min_eq_right (by omega), Nat.mod_eq_of_lt hlt, Nat.mod_eq_of_lt (by omega)]

theorem ring_eq (t : Tracks (settled mq l) l) : ring mq.maxsize = cap + 1 := t.cap_eq.symm

theorem held_le (t : Tracks (settled mq l) l) : l.held ≤ cap := by
  have hlt : l.held < ring (ring mq.maxsize) := t.held_lt
  rw [ring_ring, ring_eq t] at hlt
  omega

theorem windex_settled (t : Tracks (settled mq l) l) : mq.windex = (l.popped + l.held) % (cap + 1) := by
  have hw : mq.windex = (l.popped + l.held) % ring (ring mq.maxsize) := t.windex_eq
  rwa [ring_ring, ring_eq t] at hw

theorem rindex_settled (t : Tracks (settled mq l) l) (hon : l.OnRing mq.maxsize) : mq.rindex = l.popped % (cap + 1) := by
  have hr : mq.rindex = l.popped % ring (ring mq.maxsize) := t.rindex_mod (onRing_ring.2 hon)
  rwa [ring_ring, ring_eq t] at hr

theorem newindex_settled (t : Tracks (settled mq l) l) :
    uint32 (mq.windex + 1) % mq.maxsize = (l.popped + l.held + 1) % (cap + 1) := by
  have hnew : uint32 (mq.windex + 1) % ring mq.maxsize = (l.popped + l.held + 1) % ring (ring mq.maxsize) := t.newindex_eq
  rwa [mod_ring, ring_ring, ring_eq t] at hnew

/-- Both indices are kept in 32 bits, so the slots beyond make no difference to `ASSERT_QUEUE`. -/
theorem assertQueue_settled (t : Tracks (settled mq l) l) : mq.AssertQueue ↔ l.OnRing mq.maxsize := by
  have hw : mq.windex < 2 ^ 32 := by
    have hcap := min_le_right mq.maxsize (2 ^ 32)
    have hlt := Nat.mod_lt (l.popped + l.held) (Nat.succ_pos cap)
    rw [← windex_settled t] at hlt
    have hring : min mq.maxsize (2 ^ 32) = cap + 1 := ring_eq t
    omega
  have hr : mq.rindex < 2 ^ 32 := by
    have hrindex : mq.rindex = if ring mq.maxsize < 2 ^ 32 then l.popped else l.popped % 2 ^ 32 := t.rindex_eq
    split_ifs at hrindex with hsmall
    · have hle : l.popped ≤ ring mq.maxsize := t.popped_le hsmall
      omega
    · rw [hrindex]
      exact Nat.mod_lt _ (by norm_num)
  have hboth : mq.AssertQueue ↔ (settled mq l).AssertQueue := by
    simp only [AssertQueue, settled, ring, lt_min_iff, hw, hr, and_true]
  exact hboth.trans (t.assertQueue_iff.trans onRing_ring)

/-- Off the ring, the read index is just behind the last slot. -/
theorem rindex_off (t : Tracks (settled mq l) l) (hoff : ¬ l.OnRing mq.maxsize) : mq.rindex = mq.maxsize := by
  obtain ⟨hsmall, hle⟩ := Classical.not_imp.1 hoff
  have hring : ring mq.maxsize = mq.maxsize := min_eq_left hsmall.le
  have hr : mq.rindex = if ring mq.maxsize < 2 ^ 32 then l.popped else l.popped % 2 ^ 32 := t.rindex_eq
  have hpopped : ring mq.maxsize < 2 ^ 32 → l.popped ≤ ring mq.maxsize := t.popped_le
  rw [hring] at hr hpopped
  rw [if_pos hsmall] at hr
  have := hpopped hsmall
  omega

theorem full_settled (t : Tracks (settled mq l) l) (hon : l.OnRing mq.maxsize) :
    uint32 (mq.windex + 1) % mq.maxsize = mq.rindex ↔ l.held = cap := by
  have hfull : uint32 (mq.windex + 1) % ring mq.maxsize = mq.rindex ↔ l.held + 1 = ring (ring mq.maxsize) :=
    t.full_iff (onRing_ring.2 hon)
  rw [mod_ring, ring_ring, ring_eq t] at hfull
  rw [hfull]
  omega

theorem empty_settled (t : Tracks (settled mq l) l) (hon : l.OnRing mq.maxsize) : mq.rindex = mq.windex ↔ l.held = 0 :=
  t.empty_iff (onRing_ring.2 hon)

theorem oldest_settled (t : Tracks (settled mq l) l) (hon : l.OnRing mq.maxsize) (hheld : 0 < l.held) :
    mq.queue mq.rindex = l.fifo.items.head? :=
  t.oldest (onRing_ring.2 hon) hheld

/-- The next slot to write is none of the others of the ring. -/
theorem slot_ne (t : Tracks (settled mq l) l) {i : ℕ} (hi : i ≤ cap) (hne : i ≠ l.held) :
    (l.popped + i) % (cap + 1) ≠ mq.windex := by
  have hheld := held_le t
  rw [windex_settled t, Ne, Nat.add_mod_ring_inj (by omega) (by omega)]
  exact hne

/-- What is stored in the next slot is not yet part of the queue. -/
theorem tracks_store (t : Tracks (settled mq l) l) (x : Option α) :
    Tracks (settled { mq with queue := Function.update mq.queue mq.windex x } l) l := by
  refine ⟨t.cap_eq, t.rindex_eq, t.windex_eq, rfl, rfl, t.held_lt, t.popped_le, fun i hi => ?_⟩
  have hheld := held_le t
  have hslot : mq.queue ((l.popped + i) % ring (ring mq.maxsize)) = l.fifo.items[i]? := t.slots i hi
  show Function.update mq.queue mq.windex x ((l.popped + i) % ring (ring mq.maxsize)) = l.fifo.items[i]?
  rw [ring_ring, ring_eq t] at hslot ⊢
  rw [Function.update_of_ne (slot_ne t (by omega) (by omega)), hslot]

/-- Storing `windex` puts what the next slot holds into the queue. -/
theorem tracks_publish (t : Tracks (settled mq l) l) {m : α} {q : BoundedFifo α cap} (hslot : mq.queue mq.windex = some m)
    (hq : l.fifo.push m = some q) :
    Tracks (settled { mq with windex := uint32 (mq.windex + 1) % mq.maxsize } { l with fifo := q }) { l with fifo := q } := by
  have hitems := BoundedFifo.push_eq_some_iff.1 hq
  have hroom : l.held + 1 < ring (ring mq.maxsize) := by
    rw [ring_ring, ring_eq t]
    exact Nat.succ_lt_succ hitems.1
  have t' := t.push hq hroom
  have hqueue : Function.update mq.queue mq.windex (some m) = mq.queue := by rw [← hslot, Function.update_eq_self]
  refine ⟨t'.cap_eq, t'.rindex_eq, ?_, rfl, rfl, t'.held_lt, t'.popped_le, ?_⟩
  · have hw := t'.windex_eq
    simp only [settled, mod_ring] at hw
    exact hw
  · have hslots := t'.slots
    simp only [settled, hqueue] at hslots
    exact hslots

/-- Storing `rindex` takes the oldest message out of the queue. -/
theorem tracks_advance (t : Tracks (settled mq l) l) (hon : l.OnRing mq.maxsize) {m : α} {q : BoundedFifo α cap}
    (hq : l.fifo.pop = some (m, q)) :
    Tracks (settled { mq with rindex := uint32 (mq.rindex + 1) } ⟨q, l.popped + 1⟩) ⟨q, l.popped + 1⟩ := by
  have t' := t.pop (onRing_ring.2 hon) hq
  exact ⟨t'.cap_eq, t'.rindex_eq, t'.windex_eq, rfl, rfl, t'.held_lt, t'.popped_le, t'.slots⟩

end Settled

/-- What the thread that pushes knows where it stands. -/
def Producer.Sound (mq : MessageQueue α) {cap : ℕ} (l : Ledger α cap) : Producer α → Prop
  | .called _ => l.OnRing mq.maxsize ∨ l.held < cap
  | .checked _ newindex => l.held < cap ∧ newindex = uint32 (mq.windex + 1) % mq.maxsize
  | .stored m newindex =>
    (l.held < cap ∧ newindex = uint32 (mq.windex + 1) % mq.maxsize) ∧ mq.queue mq.windex = some m
  | .idle | .published _ | .asked => True

/-- What the thread that pops knows where it stands. A slot it has left and not read is the one that is kept free. -/
def Consumer.Sound (mq : MessageQueue α) {cap : ℕ} (l : Ledger α cap) : Consumer α → Prop
  | .idle => True
  | .called _ => l.OnRing mq.maxsize
  | .seen | .found | .counted => l.OnRing mq.maxsize ∧ 0 < l.held
  | .loaded m => (l.OnRing mq.maxsize ∧ 0 < l.held) ∧ mq.queue mq.rindex = m
  | .advanced index => index = (l.popped + cap) % (cap + 1)

/-- The queue and its threads represent the fifo `l`. -/
structure Shared.Sound (s : Shared α) (n : ℕ) {cap : ℕ} (l : Ledger α cap) : Prop where
  size : s.mq.maxsize = n
  tracks : Tracks (settled s.mq l) l
  producer : s.producer.Sound s.mq l
  consumer : s.consumer.Sound s.mq l
  pushed : entries s.log .producer = s.returned .producer ++ s.producer.pending
  popped : entries s.log .consumer = s.returned .consumer ++ s.consumer.pending s.mq

/-- A step from `s` to `s'` that is sound, with what takes effect in it answered as the fifo answers, if `g`. -/
def Shared.Follows (s s' : Shared α) (n : ℕ) {cap : ℕ} (l : Ledger α cap) (g : Prop) : Prop :=
  ∃ d, s'.log = s.log ++ d ∧ s'.Sound n (l.after (calls d)) ∧ (g → l.replies (calls d) = answers d)

section Access

variable {s s' : Shared α} {n cap : ℕ} {l : Ledger α cap} {g : Prop} {mq : MessageQueue α} {p : Producer α} {c : Consumer α}
  {aborted : Bool} {log : List (Side × Call α × Reply α)} {returned : Side → List (Call α × Reply α)} {m : α}
  {newindex : ℕ}

theorem follows_silent (h : s'.Sound n l) (hlog : s'.log = s.log) : s.Follows s' n l g :=
  ⟨[], by rw [hlog, List.append_nil], h, fun _ => rfl⟩

theorem follows_effect {side : Side} {k : Call α} {r : Reply α} (h : s'.Sound n (l.call k).2)
    (hlog : s'.log = s.log ++ [(side, k, r)]) (hr : g → (l.call k).1 = r) : s.Follows s' n l g := by
  refine ⟨[(side, k, r)], hlog, h, fun hg => ?_⟩
  show [(l.call k).1] = [r]
  rw [hr hg]

/-! The thread that pushes. -/

theorem sound_finish_producer (h : Shared.Sound ⟨mq, p, c, aborted, log, returned⟩ n l) (hp : p.pending = []) (k : Call α)
    (r : Reply α) : (Shared.finish ⟨mq, .idle, c, aborted, log, returned⟩ .producer k r).Sound n l where
  size := h.size
  tracks := h.tracks
  producer := trivial
  consumer := h.consumer
  pushed := by
    have hpushed : entries log .producer = returned .producer ++ p.pending := h.pushed
    rw [hp] at hpushed
    simp [Shared.finish, Shared.effect, Shared.answer, entries_concat_self, hpushed, Producer.pending]
  popped := by
    have hpopped : entries log .consumer = returned .consumer ++ c.pending mq := h.popped
    simp [Shared.finish, Shared.effect, Shared.answer, entries_concat_of_ne, hpopped]

/-- The queue is not full: it was on the ring when `ASSERT_QUEUE` looked, and only pops have come since. -/
theorem sound_check (h : Shared.Sound ⟨mq, .called m, c, aborted, log, returned⟩ n l)
    (hroom : uint32 (mq.windex + 1) % mq.maxsize ≠ mq.rindex) :
    Shared.Sound ⟨mq, .checked m (uint32 (mq.windex + 1) % mq.maxsize), c, aborted, log, returned⟩ n l where
  size := h.size
  tracks := h.tracks
  producer := by
    refine ⟨?_, rfl⟩
    rcases h.producer with hon | hlt
    · exact lt_of_le_of_ne (held_le h.tracks) fun hfull => hroom ((full_settled h.tracks hon).2 hfull)
    · exact hlt
  consumer := h.consumer
  pushed := h.pushed
  popped := h.popped

/-- The queue is full. Off the ring the read index is no slot, and the check cannot find it. -/
theorem held_of_refuse (h : Shared.Sound ⟨mq, .called m, c, aborted, log, returned⟩ n l)
    (hfull : uint32 (mq.windex + 1) % mq.maxsize = mq.rindex) : l.held = cap := by
  have hon : l.OnRing mq.maxsize := by
    by_contra hoff
    have hr : mq.rindex = mq.maxsize := rindex_off h.tracks hoff
    have hpos : 0 < mq.maxsize := by
      have hcap : min mq.maxsize (2 ^ 32) = cap + 1 := ring_eq h.tracks
      omega
    have hlt := Nat.mod_lt (uint32 (mq.windex + 1)) hpos
    omega
  exact (full_settled h.tracks hon).1 hfull

theorem sound_store (h : Shared.Sound ⟨mq, .checked m newindex, c, aborted, log, returned⟩ n l) :
    Shared.Sound ⟨{ mq with queue := Function.update mq.queue mq.windex (some m) }, .stored m newindex, c, aborted, log,
      returned⟩ n l := by
  have hroom : l.held < cap := h.producer.1
  have hpopped : entries log .consumer = returned .consumer ++ c.pending mq := h.popped
  refine ⟨h.size, tracks_store h.tracks _, ⟨h.producer, Function.update_self _ _ _⟩, ?_, h.pushed, ?_⟩
  · cases c with
    | loaded v =>
      obtain ⟨⟨hon, hheld⟩, hv⟩ : (l.OnRing mq.maxsize ∧ 0 < l.held) ∧ mq.queue mq.rindex = v := h.consumer
      have hne : mq.rindex ≠ mq.windex := fun heq => hheld.ne' ((empty_settled h.tracks hon).1 heq)
      refine ⟨⟨hon, hheld⟩, ?_⟩
      show Function.update mq.queue mq.windex (some m) mq.rindex = v
      rw [Function.update_of_ne hne, hv]
    | _ => exact h.consumer
  · cases c with
    | advanced index =>
      have hindex : index = (l.popped + cap) % (cap + 1) := h.consumer
      have hne : index ≠ mq.windex := hindex ▸ slot_ne h.tracks le_rfl hroom.ne'
      have hslot : Function.update mq.queue mq.windex (some m) index = mq.queue index := Function.update_of_ne hne _ _
      simp only [Consumer.pending, hslot] at hpopped ⊢
      exact hpopped
    | _ => exact hpopped

theorem sound_publish (h : Shared.Sound ⟨mq, .stored m newindex, c, aborted, log, returned⟩ n l) {q : BoundedFifo α cap}
    (hq : l.fifo.push m = some q) :
    (Shared.effect ⟨{ mq with windex := newindex }, .published m, c, aborted, log, returned⟩ .producer (.pushBack m)
      (.flag true)).Sound n { l with fifo := q } := by
  obtain ⟨⟨-, rfl⟩, hslot⟩ : (l.held < cap ∧ newindex = uint32 (mq.windex + 1) % mq.maxsize) ∧ mq.queue mq.windex = some m :=
    h.producer
  have hheld : l.held ≤ Ledger.held (⟨q, l.popped⟩ : Ledger α cap) := by
    simp [Ledger.held, (BoundedFifo.push_eq_some_iff.1 hq).2]
  have hpushed : entries log .producer = returned .producer ++ [] := h.pushed
  have hpopped : entries log .consumer = returned .consumer ++ c.pending mq := h.popped
  refine ⟨h.size, tracks_publish h.tracks hslot hq, trivial, ?_, ?_, ?_⟩
  · have hconsumer : c.Sound mq l := h.consumer
    cases c with
    | seen | found | counted => exact ⟨hconsumer.1, hconsumer.2.trans_le hheld⟩
    | loaded v => exact ⟨⟨hconsumer.1.1, hconsumer.1.2.trans_le hheld⟩, hconsumer.2⟩
    | idle | called | advanced => exact hconsumer
  · simp [Shared.effect, entries_concat_self, hpushed, Producer.pending]
  · cases c <;> simpa [Shared.effect, entries_concat_of_ne, Consumer.pending] using hpopped

theorem sound_count_push (h : Shared.Sound ⟨mq, .published m, c, aborted, log, returned⟩ n l) :
    (Shared.answer ⟨{ mq with writeNumber := uint32 (mq.writeNumber + 1) }, .idle, c, aborted, log, returned⟩ .producer
      (.pushBack m) (.flag true)).Sound n l where
  size := h.size
  tracks := h.tracks
  producer := trivial
  consumer := by
    have hconsumer : c.Sound mq l := h.consumer
    cases c <;> exact hconsumer
  pushed := by
    have hpushed : entries log .producer = returned .producer ++ [(.pushBack m, .flag true)] := h.pushed
    simp [Shared.answer, hpushed, Producer.pending]
  popped := by
    have hpopped : entries log .consumer = returned .consumer ++ c.pending mq := h.popped
    cases c <;> simpa [Shared.answer, Consumer.pending] using hpopped

/-! The thread that pops. -/

theorem sound_finish_consumer (h : Shared.Sound ⟨mq, p, c, aborted, log, returned⟩ n l) (hc : c.pending mq = [])
    (k : Call α) (r : Reply α) : (Shared.finish ⟨mq, p, .idle, aborted, log, returned⟩ .consumer k r).Sound n l where
  size := h.size
  tracks := h.tracks
  producer := h.producer
  consumer := trivial
  pushed := by
    have hpushed : entries log .producer = returned .producer ++ p.pending := h.pushed
    simp [Shared.finish, Shared.effect, Shared.answer, entries_concat_of_ne, hpushed]
  popped := by
    have hpopped : entries log .consumer = returned .consumer ++ c.pending mq := h.popped
    rw [hc] at hpopped
    simp [Shared.finish, Shared.effect, Shared.answer, entries_concat_self, hpopped, Consumer.pending]

/-- The thread goes on with what it knows. -/
theorem sound_consumer {c' : Consumer α} (h : Shared.Sound ⟨mq, p, c, aborted, log, returned⟩ n l)
    (hpending : c'.pending mq = c.pending mq) (hc : c'.Sound mq l) :
    Shared.Sound ⟨mq, p, c', aborted, log, returned⟩ n l := by
  refine ⟨h.size, h.tracks, h.producer, hc, h.pushed, ?_⟩
  show entries log .consumer = returned .consumer ++ c'.pending mq
  rw [hpending]
  exact h.popped

theorem sound_count_pop (h : Shared.Sound ⟨mq, p, .found, aborted, log, returned⟩ n l) :
    Shared.Sound ⟨{ mq with readNumber := uint32 (mq.readNumber + 1) }, p, .counted, aborted, log, returned⟩ n l := by
  have hproducer : p.Sound mq l := h.producer
  refine ⟨h.size, h.tracks, ?_, h.consumer, h.pushed, h.popped⟩
  cases p <;> exact hproducer

/-- A pop leaves room, and touches nothing that the thread that pushes relies on. -/
theorem producer_sound_advance (hp : p.Sound mq l) (hheld : l.held ≤ cap) {r : ℕ} {l' : Ledger α cap}
    (hless : l'.held < l.held) : p.Sound { mq with rindex := r } l' := by
  cases p with
  | called m => exact Or.inr (hless.trans_le hheld)
  | checked m newindex => exact ⟨hless.trans hp.1, hp.2⟩
  | stored m newindex => exact ⟨⟨hless.trans hp.1.1, hp.1.2⟩, hp.2⟩
  | idle | published | asked => trivial

theorem held_pop {q : BoundedFifo α cap} (hq : l.fifo.pop = some (m, q)) :
    Ledger.held (⟨q, l.popped + 1⟩ : Ledger α cap) < l.held := by
  simp [Ledger.held, BoundedFifo.pop_eq_some_iff.1 hq]

theorem sound_advance (h : Shared.Sound ⟨mq, p, .counted, aborted, log, returned⟩ n l) {q : BoundedFifo α cap}
    (hq : l.fifo.pop = some (m, q)) :
    (Shared.effect ⟨{ mq with rindex := uint32 (mq.rindex + 1) }, p, .advanced mq.rindex, aborted, log, returned⟩ .consumer
      .popFront (.message (mq.queue mq.rindex))).Sound n (⟨q, l.popped + 1⟩ : Ledger α cap) where
  size := h.size
  tracks := tracks_advance h.tracks h.consumer.1 hq
  producer := producer_sound_advance h.producer (held_le h.tracks) (held_pop hq)
  consumer := by
    show mq.rindex = (l.popped + 1 + cap) % (cap + 1)
    rw [rindex_settled h.tracks h.consumer.1, add_assoc, add_comm 1 cap, Nat.add_mod_right]
  pushed := by
    have hpushed : entries log .producer = returned .producer ++ p.pending := h.pushed
    simp [Shared.effect, entries_concat_of_ne, hpushed]
  popped := by
    have hpopped : entries log .consumer = returned .consumer ++ [] := h.popped
    simp [Shared.effect, entries_concat_self, hpopped, Consumer.pending]

theorem sound_finish_pop {v : Option α} (h : Shared.Sound ⟨mq, p, .loaded v, aborted, log, returned⟩ n l)
    {q : BoundedFifo α cap} (hq : l.fifo.pop = some (m, q)) :
    (Shared.finish ⟨{ mq with rindex := uint32 (mq.rindex + 1) }, p, .idle, aborted, log, returned⟩ .consumer .popFront
      (.message v)).Sound n (⟨q, l.popped + 1⟩ : Ledger α cap) where
  size := h.size
  tracks := tracks_advance h.tracks h.consumer.1.1 hq
  producer := producer_sound_advance h.producer (held_le h.tracks) (held_pop hq)
  consumer := trivial
  pushed := by
    have hpushed : entries log .producer = returned .producer ++ p.pending := h.pushed
    simp [Shared.finish, Shared.effect, Shared.answer, entries_concat_of_ne, hpushed]
  popped := by
    have hpopped : entries log .consumer = returned .consumer ++ [] := h.popped
    simp [Shared.finish, Shared.effect, Shared.answer, entries_concat_self, hpopped, Consumer.pending]

theorem sound_load_late {index : ℕ} (h : Shared.Sound ⟨mq, p, .advanced index, aborted, log, returned⟩ n l) :
    (Shared.answer ⟨mq, p, .idle, aborted, log, returned⟩ .consumer .popFront (.message (mq.queue index))).Sound n l where
  size := h.size
  tracks := h.tracks
  producer := h.producer
  consumer := trivial
  pushed := by
    have hpushed : entries log .producer = returned .producer ++ p.pending := h.pushed
    simp [Shared.answer, hpushed]
  popped := by
    have hpopped : entries log .consumer = returned .consumer ++ [(.popFront, .message (mq.queue index))] := h.popped
    simp [Shared.answer, hpopped, Consumer.pending]

/-! What takes effect is answered as the fifo answers. -/

theorem flag_empty (t : Tracks (settled mq l) l) (hon : l.OnRing mq.maxsize) :
    (l.call .empty).1 = .flag (mq.rindex == mq.windex) := by
  have hflag : (mq.rindex == mq.windex) = l.fifo.items.isEmpty := by
    rw [Bool.eq_iff_iff, beq_iff_eq, empty_settled t hon, List.isEmpty_iff]
    exact List.length_eq_zero_iff
  rw [hflag]
  rfl

/-- An access of the thread that pushes. Its `empty` is answered wrongly only off the ring. -/
theorem follows_produce (h : s.Sound n l) (hs : s.produce = some s') :
    s.Follows s' n l (s.producer = .asked → l.OnRing n) := by
  obtain ⟨mq, p, c, aborted, log, returned⟩ := s
  cases p with
  | idle => cases hs
  | called m =>
    simp only [Shared.produce] at hs
    split_ifs at hs with hroom <;> obtain rfl := Option.some.inj hs
    · exact follows_silent (sound_check h hroom) rfl
    · have hcall := Ledger.call_pushBack_full (m := m) (held_of_refuse h (not_not.1 hroom))
      refine follows_effect ?_ rfl fun _ => by rw [hcall]
      rw [hcall]
      exact sound_finish_producer h rfl _ _
  | checked m newindex =>
    obtain rfl := Option.some.inj hs
    exact follows_silent (sound_store h) rfl
  | stored m newindex =>
    obtain rfl := Option.some.inj hs
    have hroom : l.held < cap := h.producer.1.1
    obtain ⟨q, hq, hcall⟩ := Ledger.call_pushBack (m := m) hroom
    refine follows_effect ?_ rfl fun _ => by rw [hcall]
    rw [hcall]
    exact sound_publish h hq
  | published m =>
    obtain rfl := Option.some.inj hs
    exact follows_silent (sound_count_push h) rfl
  | asked =>
    obtain rfl := Option.some.inj hs
    refine follows_effect (sound_finish_producer h rfl _ _) rfl fun hon => ?_
    have hring : l.OnRing mq.maxsize := h.size.symm ▸ hon rfl
    exact flag_empty h.tracks hring

/-- An access of the thread that pops. -/
theorem follows_consume {early : Bool} (h : s.Sound n l) (hs : s.consume early = some s') : s.Follows s' n l g := by
  obtain ⟨mq, p, c, aborted, log, returned⟩ := s
  cases c with
  | idle => cases hs
  | called k =>
    have hon : l.OnRing mq.maxsize := h.consumer
    cases k with
    | empty =>
      obtain rfl := Option.some.inj hs
      exact follows_effect (sound_finish_consumer h rfl _ _) rfl fun _ => flag_empty h.tracks hon
    | front =>
      simp only [Shared.consume] at hs
      split_ifs at hs with hfound <;> obtain rfl := Option.some.inj hs
      · have hheld := Nat.pos_of_ne_zero (mt (empty_settled h.tracks hon).2 hfound)
        exact follows_silent (sound_consumer h rfl ⟨hon, hheld⟩) rfl
      · have hheld := (empty_settled h.tracks hon).1 (not_not.1 hfound)
        refine follows_effect (sound_finish_consumer h rfl _ _) rfl fun _ => ?_
        simp [Ledger.call, List.length_eq_zero_iff.1 hheld]
    | popFront =>
      simp only [Shared.consume] at hs
      split_ifs at hs with hfound <;> obtain rfl := Option.some.inj hs
      · have hheld := Nat.pos_of_ne_zero (mt (empty_settled h.tracks hon).2 hfound)
        exact follows_silent (sound_consumer h rfl ⟨hon, hheld⟩) rfl
      · have hcall := Ledger.call_popFront_empty ((empty_settled h.tracks hon).1 (not_not.1 hfound))
        refine follows_effect ?_ rfl fun _ => by rw [hcall]
        rw [hcall]
        exact sound_finish_consumer h rfl _ _
  | seen =>
    obtain ⟨hon, hheld⟩ : l.OnRing mq.maxsize ∧ 0 < l.held := h.consumer
    obtain rfl := Option.some.inj hs
    refine follows_effect (sound_finish_consumer h rfl _ _) rfl fun _ => ?_
    rw [oldest_settled h.tracks hon hheld]
    rfl
  | found =>
    obtain rfl := Option.some.inj hs
    exact follows_silent (sound_count_pop h) rfl
  | counted =>
    obtain ⟨hon, hheld⟩ : l.OnRing mq.maxsize ∧ 0 < l.held := h.consumer
    simp only [Shared.consume] at hs
    split_ifs at hs with hearly <;> obtain rfl := Option.some.inj hs
    · obtain ⟨m, q, hq, hcall⟩ := Ledger.call_popFront hheld
      refine follows_effect ?_ rfl fun _ => by rw [hcall, oldest_settled h.tracks hon hheld]
      rw [hcall]
      exact sound_advance h hq
    · exact follows_silent (sound_consumer h rfl ⟨⟨hon, hheld⟩, rfl⟩) rfl
  | loaded v =>
    obtain ⟨⟨hon, hheld⟩, hv⟩ : (l.OnRing mq.maxsize ∧ 0 < l.held) ∧ mq.queue mq.rindex = v := h.consumer
    obtain rfl := Option.some.inj hs
    obtain ⟨m, q, hq, hcall⟩ := Ledger.call_popFront hheld
    refine follows_effect ?_ rfl fun _ => by rw [hcall, ← hv, oldest_settled h.tracks hon hheld]
    rw [hcall]
    exact sound_finish_pop h hq
  | advanced index =>
    obtain rfl := Option.some.inj hs
    exact follows_silent (sound_load_late h) rfl

/-! ### Every run -/

theorem Shared.Follows.mono {g' : Prop} (h : s.Follows s' n l g) (hg : g' → g) : s.Follows s' n l g' := by
  obtain ⟨d, hlog, hsound, hanswers⟩ := h
  exact ⟨d, hlog, hsound, fun hg' => hanswers (hg hg')⟩

/-- A call starts, or aborts. -/
theorem follows_start (h : s.Sound n l) (hs' : l.OnRing s.mq.maxsize → s'.Sound n l) (hlog : s'.log = s.log) :
    s.Follows (s.start s') n l g := by
  unfold Shared.start
  split_ifs with hassert
  · exact follows_silent (hs' ((assertQueue_settled h.tracks).1 hassert)) hlog
  · exact follows_silent ⟨h.size, h.tracks, h.producer, h.consumer, h.pushed, h.popped⟩ rfl

/-- What a step can do. -/
theorem step_cases {e : Access α} (hs : s.step e = some s') : s.aborted = false ∧
    ((∃ m, e = .push m ∧ s.producer = .idle ∧ s' = s.start { s with producer := .called m }) ∨
      (e = .ask ∧ s.producer = .idle ∧ s' = s.start { s with producer := .asked }) ∨
      (∃ k, e = .take k ∧ s.consumer = .idle ∧ s' = s.start { s with consumer := .called k }) ∨
      (e = .produce ∧ s.produce = some s') ∨ ∃ early, e = .consume early ∧ s.consume early = some s') := by
  have hlive : s.aborted = false := by
    by_contra haborted
    simp [Shared.step, haborted] at hs
  refine ⟨hlive, ?_⟩
  rw [Shared.step.eq_def, if_neg (by simp [hlive])] at hs
  split at hs
  · exact .inl ⟨_, rfl, ‹_›, (Option.some.inj hs).symm⟩
  · exact .inr (.inl ⟨rfl, ‹_›, (Option.some.inj hs).symm⟩)
  · exact .inr (.inr (.inl ⟨_, rfl, ‹_›, (Option.some.inj hs).symm⟩))
  · exact .inr (.inr (.inr (.inl ⟨rfl, hs⟩)))
  · exact .inr (.inr (.inr (.inr ⟨_, rfl, hs⟩)))
  · cases hs

/-- One access of either thread. -/
theorem follows_step {e : Access α} (h : s.Sound n l) (hs : s.step e = some s') :
    s.Follows s' n l (s.Asks e = true → l.OnRing n) := by
  have hpushed := h.pushed
  have hpopped := h.popped
  obtain ⟨-, ⟨m, rfl, hidle, rfl⟩ | ⟨rfl, hidle, rfl⟩ | ⟨k, rfl, hidle, rfl⟩ | ⟨rfl, hproduce⟩ | ⟨early, rfl, hconsume⟩⟩ := step_cases hs
  · rw [hidle] at hpushed
    exact follows_start h (fun hon => ⟨h.size, h.tracks, .inl hon, h.consumer, hpushed, hpopped⟩) rfl
  · rw [hidle] at hpushed
    exact follows_start h (fun _ => ⟨h.size, h.tracks, trivial, h.consumer, hpushed, hpopped⟩) rfl
  · rw [hidle] at hpopped
    exact follows_start h (fun hon => ⟨h.size, h.tracks, h.producer, hon, hpushed, hpopped⟩) rfl
  · refine (follows_produce h hproduce).mono fun hon hasked => hon ?_
    simp [Shared.Asks, hasked]
  · exact follows_consume h hconsume

theorem sound_new (hn : 0 < n) : (Shared.new α n).Sound n (Ledger.new α (ring n - 1)) := by
  have hring : 0 < ring n := lt_min hn (by norm_num)
  have t := tracks_new (α := α) (ring n) hring
  exact ⟨rfl, ⟨t.cap_eq, t.rindex_eq, t.windex_eq, rfl, rfl, t.held_lt, t.popped_le, t.slots⟩, trivial, trivial, rfl, rfl⟩

theorem sound_of_run (hn : 0 < n) {es : List (Access α)} (hrun : (Shared.system α).run (Shared.new α n) es = some s) :
    s.Sound n ((Ledger.new α (ring n - 1)).after (calls s.log)) := by
  refine Machine.invariant (I := fun s => s.Sound n ((Ledger.new α (ring n - 1)).after (calls s.log)))
    (fun s e s' h hs => ?_) (sound_new hn) hrun
  obtain ⟨d, hlog, hsound, -⟩ := follows_step h hs
  rw [hlog, calls_append, Ledger.after_append]
  exact hsound

/-- **Without a lock the queue answers like the bounded fifo.** In whatever order the accesses of the two threads come, the
calls have taken effect in an order in which the fifo gives the same answers, and each thread has been told what its own
calls have been answered, except for the one that has yet to return. Only the `empty` of the thread that pushes must not
read the indices once the read index has left the ring. -/
theorem linearizable (hn : 0 < n) {es : List (Access α)}
    (hasks : (Shared.system α).Guarded (fun s e => s.Asks e = true → s.mq.AssertQueue) (Shared.new α n) es)
    (hrun : (Shared.system α).run (Shared.new α n) es = some s) :
    (Ledger.new α (ring n - 1)).replies (calls s.log) = answers s.log ∧
      ∀ side, entries s.log side = s.returned side ++ s.pending side := by
  have hboth : s.Sound n ((Ledger.new α (ring n - 1)).after (calls s.log)) ∧
      (Ledger.new α (ring n - 1)).replies (calls s.log) = answers s.log := by
    refine Machine.invariant_of_guarded (I := fun s => s.Sound n ((Ledger.new α (ring n - 1)).after (calls s.log)) ∧
      (Ledger.new α (ring n - 1)).replies (calls s.log) = answers s.log) (fun s e s' h hg hs => ?_) ⟨sound_new hn, rfl⟩ hasks hrun
    obtain ⟨hsound, hanswers⟩ := h
    obtain ⟨d, hlog, hsound', hanswers'⟩ := follows_step hsound hs
    have hon : s.Asks e = true → ((Ledger.new α (ring n - 1)).after (calls s.log)).OnRing n := fun hask =>
      hsound.size ▸ (assertQueue_settled hsound.tracks).1 (hg hask)
    rw [hlog, calls_append, answers_append, Ledger.after_append, Ledger.replies_append, hanswers, hanswers' hon]
    exact ⟨hsound', rfl⟩
  refine ⟨hboth.2, fun side => ?_⟩
  cases side with
  | producer => exact hboth.1.pushed
  | consumer => exact hboth.1.popped

/-- The queue is empty when it is asked, a message is pushed and popped, and the slot it has left is read only after the next
message is stored. -/
theorem linearizable_two : ∃ s, (Shared.system ℕ).run (Shared.new ℕ 2)
      [.push 7, .take .empty, .produce, .consume false, .produce, .produce, .take .popFront, .consume false, .produce,
        .consume false, .consume true, .push 8, .produce, .produce, .consume false, .produce, .produce, .ask, .produce] = some s ∧
    (Ledger.new ℕ (ring 2 - 1)).replies (calls s.log) = answers s.log ∧
      ∀ side, entries s.log side = s.returned side ++ s.pending side := by
  have hrun : (Shared.system ℕ).run (Shared.new ℕ 2)
      [.push 7, .take .empty, .produce, .consume false, .produce, .produce, .take .popFront, .consume false, .produce,
        .consume false, .consume true, .push 8, .produce, .produce, .consume false, .produce, .produce, .ask, .produce] =
      some _ := rfl
  exact ⟨_, hrun, linearizable (by decide) (by decide) hrun⟩

theorem aborted_of_produce (hs : s.produce = some s') : s'.aborted = s.aborted := by
  obtain ⟨mq, p, c, aborted, log, returned⟩ := s
  cases p with
  | called m =>
    simp only [Shared.produce] at hs
    split_ifs at hs <;> obtain rfl := Option.some.inj hs <;> rfl
  | idle => cases hs
  | checked | stored | published | asked =>
    obtain rfl := Option.some.inj hs
    rfl

theorem aborted_of_consume {early : Bool} (hs : s.consume early = some s') : s'.aborted = s.aborted := by
  obtain ⟨mq, p, c, aborted, log, returned⟩ := s
  cases c with
  | called k =>
    cases k with
    | empty =>
      obtain rfl := Option.some.inj hs
      rfl
    | front | popFront =>
      simp only [Shared.consume] at hs
      split_ifs at hs <;> obtain rfl := Option.some.inj hs <;> rfl
  | counted =>
    simp only [Shared.consume] at hs
    split_ifs at hs <;> obtain rfl := Option.some.inj hs <;> rfl
  | idle => cases hs
  | seen | found | loaded | advanced =>
    obtain rfl := Option.some.inj hs
    rfl

theorem aborted_start {s₁ : Shared α} (hlive : s₁.aborted = false) : (s.start s₁).aborted = true ↔ ¬ s.mq.AssertQueue := by
  unfold Shared.start
  split_ifs with hassert <;> simp [hlive, hassert]

/-- **When `ASSERT_QUEUE` fails.** An access aborts exactly if it starts a call after as many messages as there are slots have
been popped, and there are less than `2 ^ 32` of them. -/
theorem aborts_iff (hn : 0 < n) {es : List (Access α)} (hrun : (Shared.system α).run (Shared.new α n) es = some s)
    {e : Access α} (hs : s.step e = some s') :
    s'.aborted = true ↔ e.Starts ∧ n < 2 ^ 32 ∧ n ≤ ((Ledger.new α (ring n - 1)).after (calls s.log)).popped := by
  have hsound := sound_of_run hn hrun
  have hoff : ¬ s.mq.AssertQueue ↔ n < 2 ^ 32 ∧ n ≤ ((Ledger.new α (ring n - 1)).after (calls s.log)).popped := by
    rw [assertQueue_settled hsound.tracks, hsound.size, Ledger.OnRing, Classical.not_imp, not_lt]
  rw [← hoff]
  obtain ⟨hlive, ⟨m, rfl, -, rfl⟩ | ⟨rfl, -, rfl⟩ | ⟨k, rfl, -, rfl⟩ | ⟨rfl, hproduce⟩ | ⟨early, rfl, hconsume⟩⟩ := step_cases hs
  · simp [aborted_start, hlive, Access.Starts]
  · simp [aborted_start, hlive, Access.Starts]
  · simp [aborted_start, hlive, Access.Starts]
  · simp [aborted_of_produce hproduce, hlive, Access.Starts]
  · simp [aborted_of_consume hconsume, hlive, Access.Starts]

/-- With two slots the call after the second message has come out aborts. -/
theorem aborts_two : ∃ s s', (Shared.system ℕ).run (Shared.new ℕ 2)
      [.push 7, .produce, .produce, .produce, .produce, .take .popFront, .consume false, .consume false, .consume false,
        .consume false, .push 8, .produce, .produce, .produce, .produce, .take .popFront, .consume false, .consume false,
        .consume true, .consume true] = some s ∧ s.step (.push 9) = some s' ∧
    (s'.aborted = true ↔ (Access.push 9).Starts ∧ 2 < 2 ^ 32 ∧ 2 ≤ ((Ledger.new ℕ (ring 2 - 1)).after (calls s.log)).popped) := by
  have hrun : (Shared.system ℕ).run (Shared.new ℕ 2)
      [.push 7, .produce, .produce, .produce, .produce, .take .popFront, .consume false, .consume false, .consume false,
        .consume false, .push 8, .produce, .produce, .produce, .produce, .take .popFront, .consume false, .consume false,
        .consume true, .consume true] = some _ := rfl
  exact ⟨_, _, hrun, rfl, aborts_iff (by decide) hrun rfl⟩

end Access

end MessageQueue
end Slam
