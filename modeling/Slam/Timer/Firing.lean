import Slam.Timer.Nodes

/-!
# What a run of the timer list fires

The functions of `slam_timer_list.c` are called in any order, at the top level and inside the callbacks
of `slam_timer_list_run`. Callers keep to three rules: a forever timer has an interval of at least one
millisecond that does not carry the clock past its 64 bits, only a node that is not in the list is
added and only a node of the list is removed, and a callback adds no timer that is due already.

Ghosts record what the list is for: `stamp` numbers the insertions, `due` holds the timers that are due
when a run begins, `fired` those it has fired, `cancelled` those that a callback removed before they
had fired and `stopped` those that a callback removed afterwards.

In a run the timers fired and the timers in the list that are due make up, in this order, the timers
that were due and have not been cancelled (`Loop.split`). Every turn moves one timer from the second
part to the first; when the loop ends the list is sorted and its head is not due, so the second part
is empty. `timerListRun_fires_due` puts this together with the links.
-/

namespace Slam

/-- Where the worker stands: outside `slam_timer_list_run`, at the test of its loop, or in the callback
of the timer at an address. -/
inductive RunControl
  | idle
  | running (now : ℕ)
  | firing (now : ℕ) (a : ℕ)
  deriving DecidableEq

/-- The memory, where the worker stands, and the ghosts. -/
structure TimerRun (C : Type*) where
  nodes : TimerNodes C
  control : RunControl
  stamp : ℕ → ℕ
  adds : ℕ
  due : List (Timer C)
  fired : List ℕ
  cancelled : List ℕ
  stopped : List ℕ

/-- The calls, and the turns of the loop. -/
inductive NodeEvent (C : Type*)
  | timerNew (now interval : ℕ) (forever : Bool) (ref : ℤ) (ctx : C)
  | add (a : ℕ)
  | find (ref : ℤ)
  | removeByRef (ref : ℤ) (removeTimer : Bool)
  | removeByNode (a : ℕ) (removeTimer : Bool)
  | runBegin (now : ℕ)
  | runTurn
  | callbackEnd

variable {C : Type*}

namespace TimerRun

/-- No timers. -/
def new (C : Type*) : TimerRun C := ⟨TimerNodes.new C, .idle, fun _ => 0, 0, [], [], [], []⟩

/-- The timers in the list. -/
def timers (s : TimerRun C) : List (Timer C) := s.nodes.timers

/-- Calls can be made: the loop is not between two callbacks. -/
def luaRuns (s : TimerRun C) : Bool :=
  match s.control with
  | .running _ => false
  | _ => true

/-- `slam_timer_list_add`. -/
def add (s : TimerRun C) (a : ℕ) : Option (TimerRun C) :=
  (s.nodes.listAdd a).map fun T =>
    { s with nodes := T, stamp := Function.update s.stamp a s.adds, adds := s.adds + 1 }

/-- The ghosts take note that a callback has removed a timer. -/
def noteRemoved (s : TimerRun C) (a : ℕ) : TimerRun C :=
  match s.control with
  | .firing _ _ =>
    if a ∈ s.fired then { s with stopped := s.stopped ++ [a] }
    else { s with cancelled := s.cancelled ++ [a] }
  | _ => s

/-- `slam_timer_list_remove_by_node`. -/
def removeByNode (s : TimerRun C) (a : ℕ) (removeTimer : Bool) : Option (TimerRun C) :=
  (s.nodes.removeByNode a removeTimer).map fun T => { s with nodes := T }.noteRemoved a

/-- `slam_timer_list_remove_by_ref`. -/
def removeByRef (s : TimerRun C) (ref : ℤ) (removeTimer : Bool) : Option (TimerRun C) :=
  (s.nodes.listFind ref).bind fun found =>
    match found with
    | none => some s
    | some a => s.removeByNode a removeTimer

/-- `slam_timer_list_run` up to its loop. -/
def runBegin (s : TimerRun C) (now : ℕ) : TimerRun C :=
  { s with
    control := .running now
    due := s.timers.filter fun t => t.expireTime ≤ now
    fired := []
    cancelled := []
    stopped := [] }

/-- The test of the loop, and its body up to the callback. -/
def runTurn (s : TimerRun C) (now : ℕ) : Option (TimerRun C) :=
  match s.nodes.head with
  | none => some { s with control := .idle }
  | some a => do
    let n ← s.nodes.node a
    if n.expireTime ≤ now then
      let T ← s.nodes.removeByNode a false
      some { s with nodes := T, control := .firing now a, fired := s.fired ++ [a] }
    else some { s with control := .idle }

/-- The rest of the loop body. -/
def callbackEnd (s : TimerRun C) (now a : ℕ) : Option (TimerRun C) := do
  let n ← s.nodes.node a
  if n.forever then
    let T ← s.nodes.modify a fun n => { n with expireTime := uint64 (now + n.interval) }
    let s ← { s with nodes := T }.add a
    some { s with control := .running now }
  else
    let T ← s.nodes.timerDelete a
    some { s with nodes := T, control := .running now }

/-- One step; `none` when it cannot be taken or faults. -/
def step (s : TimerRun C) : NodeEvent C → Option (TimerRun C)
  | .timerNew now interval forever ref ctx =>
    if s.luaRuns then some { s with nodes := s.nodes.timerNew now interval forever ref ctx } else none
  | .add a => if s.luaRuns then s.add a else none
  | .find ref => if s.luaRuns then (s.nodes.listFind ref).map fun _ => s else none
  | .removeByRef ref removeTimer => if s.luaRuns then s.removeByRef ref removeTimer else none
  | .removeByNode a removeTimer => if s.luaRuns then s.removeByNode a removeTimer else none
  | .runBegin now =>
    match s.control with
    | .idle => some (s.runBegin now)
    | _ => none
  | .runTurn =>
    match s.control with
    | .running now => s.runTurn now
    | _ => none
  | .callbackEnd =>
    match s.control with
    | .firing now a => s.callbackEnd now a
    | _ => none

/-- A timer is added during a callback only if it is not due yet. -/
def NotDue (s : TimerRun C) (t : Timer C) : Prop :=
  match s.control with
  | .firing now _ => now < t.expireTime
  | _ => True

/-- The rules the callers keep to. -/
def Allowed (s : TimerRun C) : NodeEvent C → Prop
  | .timerNew _ interval forever _ _ => s.luaRuns = true ∧ (forever = true → 1 ≤ interval)
  | .add a =>
    s.luaRuns = true ∧ a ∉ s.timers.map Timer.id ∧
      match s.nodes.data a with
      | none => False
      | some t => s.NotDue t
  | .find _ => s.luaRuns = true
  | .removeByRef _ _ => s.luaRuns = true
  | .removeByNode a _ => s.luaRuns = true ∧ a ∈ s.timers.map Timer.id
  | .runBegin now =>
    s.control = .idle ∧
      ∀ t ∈ s.timers, t.forever = true → t.expireTime ≤ now → now + t.interval < 2 ^ 64
  | .runTurn =>
    match s.control with
    | .running _ => True
    | _ => False
  | .callbackEnd =>
    match s.control with
    | .firing _ _ => True
    | _ => False

instance decidableNotDue (s : TimerRun C) (t : Timer C) : Decidable (s.NotDue t) :=
  match h : s.control with
  | .firing now _ => decidable_of_iff (now < t.expireTime) (by simp only [NotDue, h])
  | .idle => isTrue (by simp only [NotDue, h])
  | .running _ => isTrue (by simp only [NotDue, h])

instance decidableAllowed (s : TimerRun C) : ∀ e, Decidable (s.Allowed e)
  | .timerNew _ interval forever _ _ =>
    inferInstanceAs (Decidable (s.luaRuns = true ∧ (forever = true → 1 ≤ interval)))
  | .add a =>
    match h : s.nodes.data a with
    | none => isFalse (by simp [Allowed, h])
    | some t =>
      decidable_of_iff (s.luaRuns = true ∧ a ∉ s.timers.map Timer.id ∧ s.NotDue t)
        (by simp only [Allowed, h])
  | .find _ => inferInstanceAs (Decidable (s.luaRuns = true))
  | .removeByRef _ _ => inferInstanceAs (Decidable (s.luaRuns = true))
  | .removeByNode a _ => inferInstanceAs (Decidable (s.luaRuns = true ∧ a ∈ s.timers.map Timer.id))
  | .runBegin now =>
    inferInstanceAs (Decidable (s.control = .idle ∧
      ∀ t ∈ s.timers, t.forever = true → t.expireTime ≤ now → now + t.interval < 2 ^ 64))
  | .runTurn =>
    match h : s.control with
    | .running _ => isTrue (by simp only [Allowed, h])
    | .idle => isFalse (by simp [Allowed, h])
    | .firing _ _ => isFalse (by simp [Allowed, h])
  | .callbackEnd =>
    match h : s.control with
    | .firing _ _ => isTrue (by simp only [Allowed, h])
    | .idle => isFalse (by simp [Allowed, h])
    | .running _ => isFalse (by simp [Allowed, h])

/-- `t` stands before `u`: it expires earlier, or at the same time and was inserted earlier. -/
def Before (s : TimerRun C) (t u : Timer C) : Prop :=
  t.expireTime < u.expireTime ∨ t.expireTime = u.expireTime ∧ s.stamp t.id < s.stamp u.id

/-- The timers that were due when the run began and that no callback removed before their turn. -/
def expected (s : TimerRun C) : List ℕ := (s.due.map Timer.id).filter fun a => a ∉ s.cancelled

/-- What holds when `slam_timer_list_run`, called at the time `now`, returns. -/
structure RunEnds (s : TimerRun C) (now : ℕ) : Prop where
  fired : s.fired = s.expected
  once : s.fired.Nodup
  again : ∀ t ∈ s.due, t.forever = true → t.id ∈ s.fired → t.id ∉ s.stopped →
    { t with expireTime := now + t.interval } ∈ s.timers
  later : ∀ t ∈ s.timers, now < t.expireTime

end TimerRun

/-- The worker and its nodes as a machine. -/
def nodeMachine (C : Type*) : Machine (TimerRun C) (NodeEvent C) where
  step := TimerRun.step

namespace TimerRun

/-! ### The list is sorted and well linked -/

/-- The list holds the timers `ts`, in order, and every forever timer has an interval. -/
structure Good (s : TimerRun C) (ts : List (Timer C)) : Prop where
  represents : s.nodes.Represents ts
  order : ts.Pairwise s.Before
  stamped : ∀ t ∈ ts, s.stamp t.id < s.adds
  interval : ∀ a t, s.nodes.data a = some t → t.forever = true → 1 ≤ t.interval

theorem good_new : (new C).Good [] :=
  ⟨⟨rfl, nofun, nofun⟩, List.Pairwise.nil, nofun, nofun⟩

/-- Data that is known of the memory stays known when other nodes are written. -/
theorem Good.of_represents {s s' : TimerRun C} {ts us : List (Timer C)} (h : s.Good ts)
    (hrep : s'.nodes.Represents us) (hsub : us.Sublist ts) (hstamp : s'.stamp = s.stamp)
    (hadds : s'.adds = s.adds)
    (hinterval : ∀ a t, s'.nodes.data a = some t → t.forever = true → 1 ≤ t.interval) :
    s'.Good us := by
  refine ⟨hrep, ?_, ?_, hinterval⟩
  · have hbefore : s'.Before = s.Before := by
      unfold Before
      rw [hstamp]
    rw [hbefore]
    exact h.order.sublist hsub
  · intro t ht
    rw [hstamp, hadds]
    exact h.stamped t (hsub.subset ht)

/-- Adding a node that is not in the list. -/
theorem Good.add {s : TimerRun C} {ts : List (Timer C)} {x : Timer C} (h : s.Good ts)
    (hx : s.nodes.data x.id = some x) (hfresh : x.id ∉ ts.map Timer.id) :
    ∃ T, s.nodes.SameData T ∧ T.Represents (timerListAdd x ts) ∧
      s.add x.id = some
        { s with nodes := T, stamp := Function.update s.stamp x.id s.adds, adds := s.adds + 1 } ∧
      ({ s with nodes := T, stamp := Function.update s.stamp x.id s.adds, adds := s.adds + 1 } :
        TimerRun C).Good (timerListAdd x ts) := by
  obtain ⟨T, hT, hrep, hsame⟩ := TimerNodes.listAdd_spec h.represents hx hfresh
  refine ⟨T, hsame, hrep, by rw [TimerRun.add, hT, Option.map_some], hrep, ?_, ?_, ?_⟩
  · have hne : ∀ u ∈ ts, u.id ≠ x.id := fun u hu heq => hfresh (heq ▸ List.mem_map_of_mem hu)
    refine timerListAdd_pairwise ?_ ?_ ?_ ?_
    · rintro u v (hlt | ⟨heq, -⟩)
      · exact hlt.le
      · exact heq.le
    · exact fun u _ hlt => .inl hlt
    · -- Among equals the new timer is the last: its stamp is the largest.
      intro u hu hle
      rcases hle.lt_or_eq with hlt | heq
      · exact .inl hlt
      · refine .inr ⟨heq, ?_⟩
        simp only [Function.update_self, Function.update_of_ne (hne u hu)]
        exact h.stamped u hu
    · refine h.order.imp_of_mem ?_
      intro u v hu hv hbefore
      simpa only [Before, Function.update_of_ne (hne u hu), Function.update_of_ne (hne v hv)]
        using hbefore
  · intro u hu
    rcases List.mem_cons.1 ((timerListAdd_perm x ts).subset hu) with rfl | hu
    · simp only [Function.update_self]
      omega
    · have hne : u.id ≠ x.id := fun heq => hfresh (heq ▸ List.mem_map_of_mem hu)
      simp only [Function.update_of_ne hne]
      exact (h.stamped u hu).trans (Nat.lt_succ_self _)
  · rw [hsame.data]
    exact h.interval

theorem interval_of_update {T : TimerNodes C} {data : ℕ → Option (Timer C)} {a : ℕ}
    {n : Option (Timer C)} (hdata : T.data = Function.update data a n)
    (hold : ∀ b t, data b = some t → t.forever = true → 1 ≤ t.interval)
    (hn : ∀ t ∈ n, t.forever = true → 1 ≤ t.interval) :
    ∀ b t, T.data b = some t → t.forever = true → 1 ≤ t.interval := by
  intro b t hb
  rw [hdata] at hb
  by_cases hba : b = a
  · subst hba
    rw [Function.update_self] at hb
    exact hn t hb
  · rw [Function.update_of_ne hba] at hb
    exact hold b t hb

/-- Removing a node of the list. -/
theorem Good.remove {s : TimerRun C} {ts : List (Timer C)} {t : Timer C} (h : s.Good ts) (ht : t ∈ ts)
    (removeTimer : Bool) :
    ∃ T, s.nodes.removeByNode t.id removeTimer = some T ∧
      ({ s with nodes := T } : TimerRun C).Good (timerListRemoveByNode ts t) ∧
      ∀ a, a ≠ t.id → T.data a = s.nodes.data a := by
  obtain ⟨T, hT, hrep, -, hdata⟩ := TimerNodes.removeByNode_spec h.represents ht removeTimer
  refine ⟨T, hT, h.of_represents hrep List.filter_sublist rfl rfl ?_, ?_⟩
  · cases removeTimer with
    | false =>
      rw [hdata]
      exact h.interval
    | true => exact interval_of_update hdata h.interval nofun
  · intro a ha
    rw [hdata]
    cases removeTimer with
    | false => rfl
    | true => exact Function.update_of_ne ha ..

/-! ### The loop -/

/-- What holds during a run that was begun at `now`. -/
structure Loop (s : TimerRun C) (now : ℕ) (ts : List (Timer C)) : Prop where
  split : s.fired ++ (ts.filter fun t => t.expireTime ≤ now).map Timer.id = s.expected
  nodup : (s.due.map Timer.id).Nodup
  old : ∀ t ∈ ts, t.expireTime ≤ now → t ∈ s.due
  nowrap : ∀ t ∈ s.due, t.forever = true → now + t.interval < 2 ^ 64
  again : ∀ t ∈ s.due, t.forever = true → t.id ∈ s.fired → t.id ∉ s.stopped →
    s.control = .firing now t.id ∨ { t with expireTime := now + t.interval } ∈ ts

/-- The timer whose callback is executing is out of the list. -/
structure Taken (s : TimerRun C) (now : ℕ) (ts : List (Timer C)) (t : Timer C) : Prop where
  due : t ∈ s.due
  data : s.nodes.data t.id = some t
  past : t.expireTime ≤ now
  gone : t.id ∉ ts.map Timer.id

/-- The invariant of the machine. -/
def Inv (s : TimerRun C) : Prop :=
  ∃ ts, s.Good ts ∧ (∀ now, s.control = .running now → s.Loop now ts) ∧
    ∀ now a, s.control = .firing now a → s.Loop now ts ∧ ∃ t, t.id = a ∧ s.Taken now ts t

/-- A timer that is not due does not count among the due ones. -/
theorem filter_timerListAdd {x : Timer C} {now : ℕ} (hx : now < x.expireTime) (ts : List (Timer C)) :
    (timerListAdd x ts).filter (fun t => t.expireTime ≤ now) =
      ts.filter fun t => t.expireTime ≤ now := by
  induction ts with
  | nil => rw [timerListAdd, List.filter_cons_of_neg (by simpa using hx)]
  | cons u us ih =>
    unfold timerListAdd
    split_ifs
    · rw [List.filter_cons_of_neg (by simpa using hx)]
    · rw [List.filter_cons, List.filter_cons, ih]

/-- The due timers in the list and the ghosts are as before. -/
theorem Loop.of_filter {s s' : TimerRun C} {now : ℕ} {ts us : List (Timer C)} (h : s.Loop now ts)
    (hghosts : (s'.due, s'.fired, s'.cancelled, s'.stopped) = (s.due, s.fired, s.cancelled, s.stopped))
    (hfilter : us.filter (fun t => t.expireTime ≤ now) = ts.filter fun t => t.expireTime ≤ now)
    (hagain : ∀ t ∈ s.due, t.forever = true →
      s.control = .firing now t.id ∨ { t with expireTime := now + t.interval } ∈ ts →
      s'.control = .firing now t.id ∨ { t with expireTime := now + t.interval } ∈ us) :
    s'.Loop now us := by
  simp only [Prod.mk.injEq] at hghosts
  obtain ⟨hdue, hfired, hcancelled, hstopped⟩ := hghosts
  refine ⟨?_, ?_, ?_, ?_, ?_⟩
  · rw [expected, hfilter, hfired, hdue, hcancelled]
    exact h.split
  · rw [hdue]
    exact h.nodup
  · intro t ht hle
    have hmem : t ∈ us.filter fun t => t.expireTime ≤ now := List.mem_filter.2 ⟨ht, by simpa using hle⟩
    rw [hfilter] at hmem
    rw [hdue]
    exact h.old t (List.mem_filter.1 hmem).1 hle
  · rw [hdue]
    exact h.nowrap
  · rw [hdue, hfired, hstopped]
    exact fun t ht hforever hmem hnot => hagain t ht hforever (h.again t ht hforever hmem hnot)

/-- A timer that is not due is added. -/
theorem Loop.add {s s' : TimerRun C} {now : ℕ} {ts : List (Timer C)} {x : Timer C} (h : s.Loop now ts)
    (hx : now < x.expireTime)
    (hghosts : (s'.due, s'.fired, s'.cancelled, s'.stopped) = (s.due, s.fired, s.cancelled, s.stopped))
    (hcontrol : ∀ t ∈ s.due, t.forever = true → s.control = .firing now t.id →
      s'.control = .firing now t.id ∨ { t with expireTime := now + t.interval } = x) :
    s'.Loop now (timerListAdd x ts) := by
  refine h.of_filter hghosts (filter_timerListAdd hx ts) ?_
  rintro t ht hforever (hfiring | hlisted)
  · rcases hcontrol t ht hforever hfiring with hfiring | rfl
    · exact .inl hfiring
    · exact .inr ((timerListAdd_perm _ ts).mem_iff.2 (List.mem_cons_self ..))
  · exact .inr ((timerListAdd_perm x ts).mem_iff.2 (List.mem_cons_of_mem x hlisted))

/-- No timer is fired twice, and one that has fired is not due any more. -/
theorem Loop.nodup_split {s : TimerRun C} {now : ℕ} {ts : List (Timer C)} (h : s.Loop now ts) :
    (s.fired ++ (ts.filter fun t => t.expireTime ≤ now).map Timer.id).Nodup := by
  rw [h.split]
  exact h.nodup.filter _

/-- The due timers that are left when a timer is removed. -/
theorem filter_timerListRemoveByNode (ts : List (Timer C)) (t : Timer C) (now : ℕ) :
    ((timerListRemoveByNode ts t).filter fun u => u.expireTime ≤ now).map Timer.id =
      ((ts.filter fun u => u.expireTime ≤ now).map Timer.id).filter fun a => a ≠ t.id := by
  rw [timerListRemoveByNode, List.filter_filter, List.filter_map, List.filter_filter]
  congr 2
  funext u
  exact Bool.and_comm _ _

/-- A callback removes a timer of the list. -/
theorem Loop.remove {s : TimerRun C} {now a : ℕ} {ts : List (Timer C)} {t : Timer C} {T : TimerNodes C}
    (h : s.Loop now ts) (hcontrol : s.control = .firing now a) :
    (({ s with nodes := T } : TimerRun C).noteRemoved t.id).Loop now (timerListRemoveByNode ts t) := by
  have hnodup := List.nodup_append.1 h.nodup_split
  have hold : ∀ u ∈ timerListRemoveByNode ts t, u.expireTime ≤ now → u ∈ s.due := fun u hu =>
    h.old u (mem_timerListRemoveByNode.1 hu).1
  -- A timer that is put back again is still there, unless it is the one that is removed.
  have hagain : ∀ u ∈ s.due, u.forever = true → u.id ∈ s.fired → u.id ∉ s.stopped → u.id ≠ t.id →
      s.control = .firing now u.id ∨
        { u with expireTime := now + u.interval } ∈ timerListRemoveByNode ts t := by
    intro u hu hforever hmem hnot hne
    rcases h.again u hu hforever hmem hnot with hfiring | hlisted
    · exact .inl hfiring
    · exact .inr (mem_timerListRemoveByNode.2 ⟨hlisted, hne⟩)
  simp only [noteRemoved, hcontrol]
  split_ifs with hfired
  · refine ⟨?_, h.nodup, hold, h.nowrap, ?_⟩
    · rw [filter_timerListRemoveByNode, List.filter_eq_self.2 ?_]
      · exact h.split
      · intro b hb
        exact decide_eq_true fun heq => hnodup.2.2 t.id hfired b hb heq.symm
    · intro u hu hforever hmem hnot
      simp only [List.mem_append, List.mem_singleton, not_or] at hnot
      rw [← hcontrol]
      exact hagain u hu hforever hmem hnot.1 hnot.2
  · refine ⟨?_, h.nodup, hold, h.nowrap, ?_⟩
    · have hkeep : s.fired.filter (fun b => b ≠ t.id) = s.fired := by
        refine List.filter_eq_self.2 ?_
        intro b hb
        exact decide_eq_true fun heq => hfired (heq ▸ hb)
      rw [filter_timerListRemoveByNode]
      calc s.fired ++ ((ts.filter fun u => u.expireTime ≤ now).map Timer.id).filter (fun b => b ≠ t.id)
          = (s.fired ++ (ts.filter fun u => u.expireTime ≤ now).map Timer.id).filter
              fun b => b ≠ t.id := by
            rw [List.filter_append, hkeep]
        _ = s.expected.filter fun b => b ≠ t.id := by rw [h.split]
        _ = _ := by
            simp only [expected, List.filter_filter, List.mem_append, List.mem_singleton]
            congr 1
            funext b
            by_cases hb : b = t.id <;> simp [hb]
    · intro u hu hforever hmem hnot
      rw [← hcontrol]
      refine hagain u hu hforever hmem hnot ?_
      exact fun heq => hfired (heq ▸ hmem)

/-! ### Every step -/

theorem Good.timers_eq {s : TimerRun C} {ts : List (Timer C)} (h : s.Good ts) : s.timers = ts :=
  h.represents.timers_eq

/-- The timer at the head of the list is the next one to fire. -/
theorem Loop.fire {s : TimerRun C} {now : ℕ} {t : Timer C} {us : List (Timer C)} {T : TimerNodes C}
    (hgood : s.Good (t :: us)) (h : s.Loop now (t :: us)) (hcontrol : s.control = .running now)
    (hdue : t.expireTime ≤ now) :
    ({ s with nodes := T, control := .firing now t.id, fired := s.fired ++ [t.id] } :
      TimerRun C).Loop now us := by
  refine ⟨?_, h.nodup, fun u hu => h.old u (List.mem_cons_of_mem t hu), h.nowrap, ?_⟩
  · have hsplit := h.split
    rw [List.filter_cons_of_pos (by simpa using hdue), List.map_cons, List.append_cons] at hsplit
    exact hsplit
  · intro u hu hforever hmem hnot
    rcases List.mem_append.1 hmem with hmem | hmem
    · rcases h.again u hu hforever hmem hnot with hfiring | hlisted
      · rw [hcontrol] at hfiring
        cases hfiring
      · rcases List.mem_cons.1 hlisted with heq | hlisted
        · -- A timer put back in this run is not due.
          have hinterval := hgood.interval t.id t (hgood.represents.holds t (List.mem_cons_self ..))
            (by rw [← heq]; exact hforever)
          have hexpire : now + u.interval = t.expireTime := congrArg Timer.expireTime heq
          have hsame : u.interval = t.interval := by rw [← heq]
          omega
        · exact .inr hlisted
    · rw [List.mem_singleton] at hmem
      exact .inl (by rw [hmem])

/-- A turn of the loop: it ends, with no due timer left, or fires the head of the list. -/
theorem Inv.runTurn {s : TimerRun C} {now : ℕ} (h : s.Inv) (hcontrol : s.control = .running now) :
    ∃ s', s.runTurn now = some s' ∧ s'.Inv ∧
      (s'.control = .idle ∧ s'.RunEnds now ∨
        ∃ a, s'.control = .firing now a ∧ s'.fired = s.fired ++ [a]) := by
  obtain ⟨ts, hgood, hrunning, -⟩ := h
  have hloop := hrunning now hcontrol
  -- The loop ends when no timer of the list is due.
  have hends : (∀ t ∈ ts, now < t.expireTime) →
      ({ s with control := .idle } : TimerRun C).RunEnds now := by
    intro hlater
    have hnil : ts.filter (fun t => t.expireTime ≤ now) = [] := by
      refine List.filter_eq_nil_iff.2 ?_
      intro t ht
      simpa using hlater t ht
    have hsplit := hloop.split
    have honce := hloop.nodup_split
    rw [hnil, List.map_nil, List.append_nil] at hsplit honce
    have htimers : ({ s with control := .idle } : TimerRun C).timers = ts := hgood.timers_eq
    refine ⟨hsplit, honce, ?_, ?_⟩
    · intro t ht hforever hmem hnot
      rw [htimers]
      rcases hloop.again t ht hforever hmem hnot with hfiring | hlisted
      · rw [hcontrol] at hfiring
        cases hfiring
      · exact hlisted
    · rw [htimers]
      exact hlater
  have hidle : ({ s with control := .idle } : TimerRun C).Inv :=
    ⟨ts, ⟨hgood.represents, hgood.order, hgood.stamped, hgood.interval⟩, nofun, nofun⟩
  cases ts with
  | nil =>
    have hhead : s.nodes.head = none := hgood.represents.linked
    simp only [TimerRun.runTurn, hhead]
    exact ⟨_, rfl, hidle, .inl ⟨rfl, hends nofun⟩⟩
  | cons t us =>
    have hhead : s.nodes.head = some t.id := hgood.represents.linked.1
    obtain ⟨n, hn, htimer⟩ := hgood.represents.node (List.mem_cons_self ..)
    have hexpire : n.expireTime = t.expireTime := congrArg Timer.expireTime htimer
    simp only [TimerRun.runTurn, hhead, hn, hexpire, Option.bind_eq_bind, Option.bind_some]
    by_cases hdue : t.expireTime ≤ now
    · rw [if_pos hdue]
      obtain ⟨T, hT, hgood', -⟩ := hgood.remove (List.mem_cons_self ..) false
      obtain ⟨T', hT', -, -, hdata⟩ :=
        TimerNodes.removeByNode_spec hgood.represents (List.mem_cons_self ..) false
      obtain rfl := Option.some.inj (hT'.symm.trans hT)
      have hrest : timerListRemoveByNode (t :: us) t = us :=
        TimerNodes.timerListRemoveByNode_append [] hgood.represents.nodup
      rw [hrest] at hgood'
      rw [hT, Option.bind_some]
      refine ⟨_, rfl, ⟨us, ⟨hgood'.represents, hgood'.order, hgood'.stamped, hgood'.interval⟩, nofun, ?_⟩,
        .inr ⟨t.id, rfl, rfl⟩⟩
      rintro _ _ ⟨rfl, rfl⟩
      refine ⟨hloop.fire hgood hcontrol hdue, t, rfl, hloop.old t (List.mem_cons_self ..) hdue, ?_, hdue, ?_⟩
      · exact (congrFun hdata t.id).trans (hgood.represents.holds t (List.mem_cons_self ..))
      · exact (List.nodup_cons.1 hgood.represents.nodup).1
    · rw [if_neg hdue]
      refine ⟨_, rfl, hidle, .inl ⟨rfl, hends ?_⟩⟩
      intro u hu
      rcases List.mem_cons.1 hu with rfl | hu
      · exact not_le.1 hdue
      · rcases (List.pairwise_cons.1 hgood.order).1 u hu with hlt | ⟨heq, -⟩
        · omega
        · omega

/-- Two timers that were due are one if they have one number. -/
theorem Loop.eq_of_id {s : TimerRun C} {now : ℕ} {ts : List (Timer C)} (h : s.Loop now ts)
    {t u : Timer C} (ht : t ∈ s.due) (hu : u ∈ s.due) (hid : t.id = u.id) : t = u :=
  List.inj_on_of_nodup_map h.nodup ht hu hid

theorem uint64_of_lt {n : ℕ} (h : n < 2 ^ 64) : uint64 n = n := by
  unfold uint64
  omega

/-- The end of a callback: a forever timer is put back behind `now`, another one is deleted. -/
theorem Inv.callbackEnd {s : TimerRun C} {now a : ℕ} (h : s.Inv) (hcontrol : s.control = .firing now a) :
    ∃ s', s.callbackEnd now a = some s' ∧ s'.Inv := by
  obtain ⟨ts, hgood, -, hfiring⟩ := h
  obtain ⟨hloop, t, rfl, htaken⟩ := hfiring now a hcontrol
  obtain ⟨n, hn, htimer⟩ := Option.map_eq_some_iff.1 htaken.data
  have hforever : n.forever = t.forever := congrArg Timer.forever htimer
  -- The timer that is firing is this one.
  have hthis : ∀ u ∈ s.due, s.control = .firing now u.id → u = t := by
    intro u hu hfiring
    rw [hcontrol, RunControl.firing.injEq] at hfiring
    exact hloop.eq_of_id hu htaken.due hfiring.2.symm
  simp only [TimerRun.callbackEnd, hn, hforever, Option.bind_eq_bind, Option.bind_some]
  by_cases hagain : t.forever = true
  · rw [if_pos hagain]
    have hexpire : uint64 (now + t.interval) = now + t.interval := by
      exact_mod_cast uint64_of_lt (hloop.nowrap t htaken.due hagain)
    have hinterval := hgood.interval t.id t htaken.data hagain
    obtain ⟨T, hT, hrep, halloc, hdata⟩ :=
      TimerNodes.setExpireTime_spec hgood.represents htaken.data htaken.gone (now + t.interval)
    have hmodify : s.nodes.modify t.id (fun n => { n with expireTime := uint64 (now + n.interval) }) =
        some T := by
      rw [← hT]
      have hint : n.interval = t.interval := congrArg Timer.interval htimer
      simp only [TimerNodes.modify, hn, Option.bind_eq_bind, Option.bind_some, hint, hexpire]
    have hgood' : ({ s with nodes := T } : TimerRun C).Good ts :=
      hgood.of_represents hrep (List.Sublist.refl ts) rfl rfl
        (interval_of_update hdata hgood.interval (by rintro u ⟨rfl⟩ -; exact hinterval))
    have hx : T.data t.id = some { t with expireTime := now + t.interval } := by
      rw [hdata, Function.update_self]
    obtain ⟨T', -, -, hadd, hgood''⟩ :=
      hgood'.add (x := { t with expireTime := now + t.interval }) hx htaken.gone
    rw [hmodify, Option.bind_some, hadd, Option.bind_some]
    refine ⟨_, rfl, _, ⟨hgood''.represents, hgood''.order, hgood''.stamped, hgood''.interval⟩, ?_, by simp⟩
    rintro _ ⟨rfl⟩
    refine hloop.add (x := { t with expireTime := now + t.interval }) ?_ rfl ?_
    · show now < now + t.interval
      omega
    · intro u hu _ hfiring
      rw [hthis u hu hfiring]
      exact .inr rfl
  · rw [if_neg hagain]
    obtain ⟨T, hT, hrep, -, hdata⟩ := TimerNodes.timerDelete_spec hgood.represents
      (by rw [htaken.data]; rfl) htaken.gone
    rw [hT, Option.bind_some]
    refine ⟨_, rfl, ts, hgood.of_represents hrep (List.Sublist.refl ts) rfl rfl
      (interval_of_update hdata hgood.interval (by simp)), ?_, by simp⟩
    rintro _ ⟨rfl⟩
    refine hloop.of_filter rfl rfl ?_
    rintro u hu hforever (hfiring | hlisted)
    · rw [hthis u hu hfiring] at hforever
      exact absurd hforever hagain
    · exact .inr hlisted

/-- A removal at the top level or in a callback. -/
theorem Inv.removeByNode {s : TimerRun C} (h : s.Inv) (hlua : s.luaRuns = true) {t : Timer C}
    (ht : t ∈ s.timers) (removeTimer : Bool) :
    ∃ s', s.removeByNode t.id removeTimer = some s' ∧ s'.Inv := by
  obtain ⟨ts, hgood, -, hfiring⟩ := h
  rw [hgood.timers_eq] at ht
  obtain ⟨T, hT, hgood', hdata⟩ := hgood.remove ht removeTimer
  refine ⟨_, by rw [TimerRun.removeByNode, hT, Option.map_some], timerListRemoveByNode ts t, ?_⟩
  obtain ⟨s', hs', hnodes, hstamp, hadds, hdue, hsame⟩ :
      ∃ s', s' = ({ s with nodes := T } : TimerRun C).noteRemoved t.id ∧ s'.nodes = T ∧
        s'.stamp = s.stamp ∧ s'.adds = s.adds ∧ s'.due = s.due ∧ s'.control = s.control := by
    refine ⟨_, rfl, ?_⟩
    unfold noteRemoved
    split
    · split_ifs <;> exact ⟨rfl, rfl, rfl, rfl, rfl⟩
    · exact ⟨rfl, rfl, rfl, rfl, rfl⟩
  rw [← hs']
  refine ⟨?_, ?_, ?_⟩
  · refine hgood'.of_represents ?_ (List.Sublist.refl _) hstamp hadds ?_
    · rw [hnodes]
      exact hgood'.represents
    · rw [hnodes]
      exact hgood'.interval
  · intro now hcontrol
    rw [hsame] at hcontrol
    simp [luaRuns, hcontrol] at hlua
  · intro now a hcontrol
    rw [hsame] at hcontrol
    obtain ⟨hloop, u, hid, htaken⟩ := hfiring now a hcontrol
    have hne : u.id ≠ t.id := fun heq => htaken.gone (heq ▸ List.mem_map_of_mem ht)
    refine ⟨?_, u, hid, ?_, ?_, htaken.past, ?_⟩
    · rw [hs']
      exact hloop.remove hcontrol
    · rw [hdue]
      exact htaken.due
    · rw [hnodes, hdata u.id hne]
      exact htaken.data
    · exact fun hmem => htaken.gone ((List.filter_sublist.map _).subset hmem)

/-- A node is allocated. -/
theorem Inv.timerNew {s : TimerRun C} (h : s.Inv) (now interval : ℕ) {forever : Bool}
    (hforever : forever = true → 1 ≤ interval) (ref : ℤ) (ctx : C) :
    ({ s with nodes := s.nodes.timerNew now interval forever ref ctx } : TimerRun C).Inv := by
  obtain ⟨ts, hgood, hrunning, hfiring⟩ := h
  obtain ⟨hrep, hdata⟩ := TimerNodes.timerNew_spec hgood.represents now interval forever ref ctx
  refine ⟨ts, hgood.of_represents hrep (List.Sublist.refl ts) rfl rfl
    (interval_of_update hdata hgood.interval (by rintro t ⟨rfl⟩; exact hforever)), ?_, ?_⟩
  · exact fun now' hcontrol => (hrunning now' hcontrol).of_filter rfl rfl fun _ _ _ h => h
  · intro now' a hcontrol
    obtain ⟨hloop, t, hid, htaken⟩ := hfiring now' a hcontrol
    refine ⟨hloop.of_filter rfl rfl fun _ _ _ h => h, t, hid, htaken.due, ?_, htaken.past, htaken.gone⟩
    have hlt := hgood.represents.bound t.id (by rw [htaken.data]; rfl)
    rw [hdata, Function.update_of_ne hlt.ne]
    exact htaken.data

/-- A node is added at the top level or in a callback. -/
theorem Inv.add {s : TimerRun C} (h : s.Inv) (hlua : s.luaRuns = true) {a : ℕ} {t : Timer C}
    (hfresh : a ∉ s.timers.map Timer.id) (hdata : s.nodes.data a = some t) (hdue : s.NotDue t) :
    ∃ s', s.add a = some s' ∧ s'.Inv := by
  obtain ⟨ts, hgood, -, hfiring⟩ := h
  rw [hgood.timers_eq] at hfresh
  obtain ⟨n, hn, rfl⟩ := Option.map_eq_some_iff.1 hdata
  obtain ⟨T, hsame, hrep, hadd, hgood'⟩ := hgood.add (x := n.timer a) hdata hfresh
  refine ⟨_, hadd, _, hgood', ?_, ?_⟩
  · intro now hcontrol
    have hcontrol' : s.control = .running now := hcontrol
    simp [luaRuns, hcontrol'] at hlua
  · intro now b hcontrol
    have hcontrol' : s.control = .firing now b := hcontrol
    obtain ⟨hloop, u, rfl, htaken⟩ := hfiring now b hcontrol'
    have hlater : now < (n.timer a).expireTime := by simpa only [NotDue, hcontrol'] using hdue
    refine ⟨hloop.add hlater rfl fun t _ _ hfiring => .inl hfiring, u, rfl, htaken.due, ?_, htaken.past, ?_⟩
    · exact (congrFun hsame.data u.id).trans htaken.data
    · intro hmem
      rcases List.mem_cons.1 (((timerListAdd_perm _ _).map Timer.id).subset hmem) with hid | hmem
      · -- The timer that is firing is due, so it is not the one that is added.
        have hid' : u.id = a := hid
        rw [← hid', htaken.data, Option.some.injEq] at hdata
        have hpast := htaken.past
        rw [hdata, hid'] at hpast
        omega
      · exact htaken.gone hmem

/-- Every allowed step can be taken and keeps the invariant, and where a run ends it has done what it is
for. -/
theorem Inv.step {s : TimerRun C} {e : NodeEvent C} (h : s.Inv) (hallowed : s.Allowed e) :
    ∃ s', s.step e = some s' ∧ s'.Inv := by
  cases e with
  | timerNew now interval forever ref ctx =>
    exact ⟨_, if_pos hallowed.1, h.timerNew now interval hallowed.2 ref ctx⟩
  | add a =>
    obtain ⟨hlua, hfresh, hdata⟩ := hallowed
    simp only [TimerRun.step, if_pos hlua]
    rcases hnode : s.nodes.data a with _ | t
    · rw [hnode] at hdata
      exact hdata.elim
    · rw [hnode] at hdata
      exact h.add hlua hfresh hnode hdata
  | find ref =>
    have hlua : s.luaRuns = true := hallowed
    obtain ⟨ts, hgood, -⟩ := id h
    refine ⟨s, ?_, h⟩
    simp only [TimerRun.step, if_pos hlua, TimerNodes.listFind_spec hgood.represents, Option.map_some]
  | removeByRef ref removeTimer =>
    have hlua : s.luaRuns = true := hallowed
    obtain ⟨ts, hgood, -⟩ := id h
    simp only [TimerRun.step, if_pos hlua, TimerRun.removeByRef,
      TimerNodes.listFind_spec hgood.represents, Option.bind_some]
    rcases hfind : timerListFind ts ref with _ | t
    · exact ⟨s, rfl, h⟩
    · have ht : t ∈ s.timers := by
        rw [hgood.timers_eq]
        exact (timerListFind_some hfind).1
      exact h.removeByNode hlua ht removeTimer
  | removeByNode a removeTimer =>
    obtain ⟨hlua, hmem⟩ := hallowed
    obtain ⟨t, ht, rfl⟩ := List.mem_map.1 hmem
    simp only [TimerRun.step, if_pos hlua]
    exact h.removeByNode hlua ht removeTimer
  | runBegin now =>
    obtain ⟨hidle, hnowrap⟩ := hallowed
    obtain ⟨ts, hgood, -⟩ := h
    refine ⟨s.runBegin now, by simp only [TimerRun.step, hidle], ts,
      ⟨hgood.represents, hgood.order, hgood.stamped, hgood.interval⟩, ?_, nofun⟩
    have htimers := hgood.timers_eq
    rintro _ ⟨rfl⟩
    refine ⟨?_, ?_, ?_, ?_, ?_⟩
    · simp [TimerRun.runBegin, expected, htimers]
    · simp only [TimerRun.runBegin, htimers]
      exact hgood.represents.nodup.sublist (List.filter_sublist.map _)
    · intro t ht hle
      simp only [TimerRun.runBegin, htimers]
      exact List.mem_filter.2 ⟨ht, by simpa using hle⟩
    · intro t ht hforever
      obtain ⟨ht, hle⟩ := List.mem_filter.1 ht
      exact hnowrap t ht hforever (by simpa using hle)
    · intro t _ _ hmem
      cases hmem
  | runTurn =>
    cases hcontrol : s.control with
    | running now =>
      obtain ⟨s', hturn, hinv, -⟩ := h.runTurn hcontrol
      exact ⟨s', by simp only [TimerRun.step, hcontrol, hturn], hinv⟩
    | idle => simp [Allowed, hcontrol] at hallowed
    | firing now a => simp [Allowed, hcontrol] at hallowed
  | callbackEnd =>
    cases hcontrol : s.control with
    | firing now a =>
      obtain ⟨s', hend, hinv⟩ := h.callbackEnd hcontrol
      exact ⟨s', by simp only [TimerRun.step, hcontrol, hend], hinv⟩
    | idle => simp [Allowed, hcontrol] at hallowed
    | running now => simp [Allowed, hcontrol] at hallowed

/-- **What the timer list does.** Whatever calls are made by the rules, no call faults, the list is well
linked and sorted, with timers that expire together in the order of their insertion; a run fires, in
the order of the list and each once, the timers that are due and not removed before their turn. Each
turn fires the next of them, or ends the run: then all of them have been fired, the forever timers
among them that no callback has removed are in the list again at `now + interval`, and no timer in the
list is due. -/
theorem timerListRun_fires_due {es : List (NodeEvent C)}
    (hallowed : (nodeMachine C).Guarded Allowed (new C) es) :
    ∃ s, (nodeMachine C).run (new C) es = some s ∧
      s.nodes.links.WellLinked s.nodes.head (s.timers.map Timer.id) ∧ s.timers.Pairwise s.Before ∧
      (∀ now, (s.control = .running now ∨ ∃ a, s.control = .firing now a) → s.fired <+: s.expected) ∧
      ∀ now, s.control = .running now → ∃ s', s.step .runTurn = some s' ∧
        (s'.control = .idle ∧ s'.RunEnds now ∨
          ∃ a, s'.control = .firing now a ∧ s'.fired = s.fired ++ [a]) := by
  obtain ⟨s, hrun, hinv⟩ := Machine.run_of_guarded (M := nodeMachine C) (I := Inv)
    (fun _ _ h hallowed => h.step hallowed) ⟨[], good_new, nofun, nofun⟩ hallowed
  obtain ⟨ts, hgood, hrunning, hfiring⟩ := id hinv
  have htimers := hgood.timers_eq
  refine ⟨s, hrun, ?_, ?_, ?_, ?_⟩
  · rw [htimers]
    exact hgood.represents.linked
  · rw [htimers]
    exact hgood.order
  · rintro now (hcontrol | ⟨a, hcontrol⟩)
    · rw [← (hrunning now hcontrol).split]
      exact List.prefix_append _ _
    · rw [← (hfiring now a hcontrol).1.split]
      exact List.prefix_append _ _
  · intro now hcontrol
    obtain ⟨s', hturn, -, hcases⟩ := hinv.runTurn hcontrol
    exact ⟨s', by simp only [TimerRun.step, hcontrol, hturn], hcases⟩

/-- Two timers that expire together and a forever timer; a callback removes the second one. -/
def threeTimers : List (NodeEvent Unit) :=
  [.timerNew 0 5 false 1 (), .timerNew 0 5 false 2 (), .timerNew 0 3 true 3 (), .add 0, .add 1, .add 2,
    .runBegin 7, .runTurn, .removeByRef 2 true, .callbackEnd, .runTurn, .callbackEnd]

theorem timerListRun_fires_due_threeTimers :
    (nodeMachine Unit).Guarded Allowed (new Unit) threeTimers ∧
      ∃ s, (nodeMachine Unit).run (new Unit) threeTimers = some s ∧
      s.nodes.links.WellLinked s.nodes.head (s.timers.map Timer.id) ∧ s.timers.Pairwise s.Before ∧
      (∀ now, (s.control = .running now ∨ ∃ a, s.control = .firing now a) → s.fired <+: s.expected) ∧
      ∀ now, s.control = .running now → ∃ s', s.step .runTurn = some s' ∧
        (s'.control = .idle ∧ s'.RunEnds now ∨
          ∃ a, s'.control = .firing now a ∧ s'.fired = s.fired ++ [a]) := by
  have hallowed : (nodeMachine Unit).Guarded Allowed (new Unit) threeTimers := by decide +kernel
  exact ⟨hallowed, timerListRun_fires_due hallowed⟩

end TimerRun
end Slam
