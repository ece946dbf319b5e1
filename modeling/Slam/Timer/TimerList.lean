import Slam.Lib.Machine
import Mathlib.Tactic

/-!
# `slam_timer_list.c`: timers of the worker

Timers wait in a list sorted by expiry time. `slam_timer_list_run` takes the head while it is due,
calls its Lua closure, and puts it back if it is a forever timer. The closure is found through the
registry under the timer's `ref`, which `luaL_ref` handed out in `cc.newtimer`; `cc.removetimer` looks
a timer up by its `ref` in the list, releases the `ref` and deletes the timer.

Lua code runs between the turns of the worker and inside timer callbacks, so a run of the worker is a
sequence of events: the calls Lua makes and the turns of the loop. Timers and closures carry, as a
ghost, the number of the `cc.newtimer` call they come from.
-/

namespace Slam

/-! ### The list -/

/-- `slam_timer_s`; `C` is the type of the context handed to the callback. -/
structure Timer (C : Type*) where
  id : ℕ
  interval : ℕ
  expireTime : ℕ
  forever : Bool
  ref : ℤ
  ctx : C
  deriving DecidableEq

/-- The values of a `uint64_t`. -/
def uint64 (n : ℤ) : ℕ := (n % 2 ^ 64).toNat

variable {C : Type*}

/-- `slam_timer_new`. -/
def Timer.new (id : ℕ) (now interval : ℕ) (forever : Bool) (ref : ℤ) (ctx : C) : Timer C :=
  ⟨id, interval, uint64 (now + interval), forever, ref, ctx⟩

/-- `slam_timer_list_add`. -/
def timerListAdd (t : Timer C) : List (Timer C) → List (Timer C)
  | [] => [t]
  | u :: us => if t.expireTime < u.expireTime then t :: u :: us else u :: timerListAdd t us

/-- `slam_timer_list_find`. -/
def timerListFind (ts : List (Timer C)) (ref : ℤ) : Option (Timer C) :=
  ts.find? fun t => t.ref = ref

/-- `slam_timer_list_remove_by_node`. -/
def timerListRemoveByNode (ts : List (Timer C)) (t : Timer C) : List (Timer C) :=
  ts.filter fun u => u.id ≠ t.id

theorem timerListAdd_perm (t : Timer C) (ts : List (Timer C)) :
    (timerListAdd t ts).Perm (t :: ts) := by
  induction ts with
  | nil => exact .refl _
  | cons u us ih =>
    unfold timerListAdd
    split_ifs
    · exact .refl _
    · exact (ih.cons u).trans (.swap t u us)

/-- A relation that agrees with the order of expiry times and puts `t` behind its equals survives
adding `t`. -/
theorem timerListAdd_pairwise {R : Timer C → Timer C → Prop} {t : Timer C} {ts : List (Timer C)}
    (hmono : ∀ u v, R u v → u.expireTime ≤ v.expireTime)
    (hbefore : ∀ u ∈ ts, t.expireTime < u.expireTime → R t u)
    (hafter : ∀ u ∈ ts, u.expireTime ≤ t.expireTime → R u t) (h : ts.Pairwise R) :
    (timerListAdd t ts).Pairwise R := by
  induction ts with
  | nil => exact List.pairwise_singleton R t
  | cons u us ih =>
    obtain ⟨hhead, htail⟩ := List.pairwise_cons.1 h
    unfold timerListAdd
    split_ifs with hlt
    · refine List.pairwise_cons.2 ⟨?_, h⟩
      intro v hv
      refine hbefore v hv ?_
      rcases List.mem_cons.1 hv with rfl | hv
      · exact hlt
      · exact hlt.trans_le (hmono u v (hhead v hv))
    · refine List.pairwise_cons.2 ⟨?_, ?_⟩
      · intro v hv
        rcases List.mem_cons.1 ((timerListAdd_perm t us).subset hv) with rfl | hv
        · exact hafter u (List.mem_cons_self ..) (not_lt.1 hlt)
        · exact hhead v hv
      · exact ih (fun v hv => hbefore v (List.mem_cons_of_mem u hv))
          (fun v hv => hafter v (List.mem_cons_of_mem u hv)) htail

theorem timerListFind_some {ts : List (Timer C)} {ref : ℤ} {t : Timer C}
    (h : timerListFind ts ref = some t) : t ∈ ts ∧ t.ref = ref :=
  ⟨List.mem_of_find?_eq_some h, by simpa using List.find?_some h⟩

theorem timerListFind_none {ts : List (Timer C)} {ref : ℤ} :
    timerListFind ts ref = none ↔ ∀ t ∈ ts, t.ref ≠ ref := by
  simp [timerListFind]

theorem mem_timerListRemoveByNode {ts : List (Timer C)} {t u : Timer C} :
    u ∈ timerListRemoveByNode ts t ↔ u ∈ ts ∧ u.id ≠ t.id := by
  simp [timerListRemoveByNode]

/-! ### The worker -/

/-- Where the worker stands: running Lua or waiting, in the loop of `slam_timer_list_run`, or with a
timer taken from the list (`called` if its callback is executing). -/
inductive TimerControl (C : Type*)
  | idle
  | running (now : ℕ)
  | firing (now : ℕ) (t : Timer C) (called : Bool)

/-- A call of a timer's closure with its arguments. -/
structure TimerCall (C : Type*) where
  closure : ℕ
  ref : ℤ
  ctx : C
  deriving DecidableEq

/-- The worker's timers: the list, the closures in the registry, the number of `cc.newtimer` calls so
far and the callbacks made so far. -/
structure TimerState (C : Type*) where
  timers : List (Timer C)
  registry : ℤ → Option ℕ
  control : TimerControl C
  next : ℕ
  invoked : List (TimerCall C)

/-- What happens next. `now` is what `slam_milliseconds` returns, `ref` what `luaL_ref` returns. -/
inductive TimerEvent (C : Type*)
  | newtimer (milliseconds : ℤ) (forever : Bool) (ctx : C) (now : ℕ) (ref : ℤ)
  | removetimer (ref : ℤ)
  | runBegin (now : ℕ)
  | runTurn
  | callbackEnd

namespace TimerState

/-- The worker starts without timers. -/
def new (C : Type*) : TimerState C := ⟨[], fun _ => none, .idle, 0, []⟩

/-- Lua code is running, so it may call into the timer functions. -/
def luaRuns (s : TimerState C) : Bool :=
  match s.control with
  | .idle => true
  | .running _ => false
  | .firing _ _ called => called

/-- `cc_newtimer`: the closure goes into the registry and a timer into the list. -/
def newtimer (s : TimerState C) (milliseconds : ℤ) (forever : Bool) (ctx : C) (now : ℕ) (ref : ℤ) :
    TimerState C :=
  { s with
    timers := timerListAdd (Timer.new s.next now (uint64 milliseconds) forever ref ctx) s.timers
    registry := Function.update s.registry ref (some s.next)
    next := s.next + 1 }

/-- `slam_runnable_remove_timer`. -/
def removeTimer (s : TimerState C) (ref : ℤ) : TimerState C :=
  match timerListFind s.timers ref with
  | none => s
  | some t =>
    { s with
      timers := timerListRemoveByNode s.timers t
      registry := Function.update s.registry t.ref none }

/-- `slam_lua_event_timer` up to the call: the closure is looked up in the registry. -/
def eventTimer (s : TimerState C) (now : ℕ) (t : Timer C) : TimerState C :=
  match s.registry t.ref with
  | none => { s with control := .firing now t false }
  | some closure =>
    { s with
      control := .firing now t true
      invoked := s.invoked ++ [⟨closure, t.ref, t.ctx⟩] }

/-- The test of the loop of `slam_timer_list_run`, and its body up to the callback. -/
def runTurn (s : TimerState C) (now : ℕ) : TimerState C :=
  match s.timers with
  | [] => { s with control := .idle }
  | t :: ts =>
    if t.expireTime ≤ now then ({ s with timers := ts }).eventTimer now t
    else { s with control := .idle }

/-- The rest of the loop body. -/
def callbackEnd (s : TimerState C) (now : ℕ) (t : Timer C) : TimerState C :=
  if t.forever then
    { s with
      timers := timerListAdd { t with expireTime := uint64 (now + t.interval) } s.timers
      control := .running now }
  else { s with control := .running now }

/-- One step; `none` when it cannot be taken. `luaL_ref` returns a key that is not in use. -/
def step (s : TimerState C) : TimerEvent C → Option (TimerState C)
  | .newtimer milliseconds forever ctx now ref =>
    if s.luaRuns ∧ s.registry ref = none then
      some (s.newtimer milliseconds forever ctx now ref)
    else none
  | .removetimer ref => if s.luaRuns then some (s.removeTimer ref) else none
  | .runBegin now =>
    match s.control with
    | .idle => some { s with control := .running now }
    | _ => none
  | .runTurn =>
    match s.control with
    | .running now => some (s.runTurn now)
    | _ => none
  | .callbackEnd =>
    match s.control with
    | .firing now t _ => some (s.callbackEnd now t)
    | _ => none

end TimerState

/-- The worker as a machine. -/
def timerMachine (C : Type*) : Machine (TimerState C) (TimerEvent C) where
  step := TimerState.step

namespace TimerState

/-! ### What every run keeps -/

/-- The timer taken from the list by the loop. -/
def taken (s : TimerState C) : Option (Timer C) :=
  match s.control with
  | .firing _ t _ => some t
  | _ => none

/-- The timers that exist: the one taken from the list, and those in it. -/
def live (s : TimerState C) : List (Timer C) := s.taken.toList ++ s.timers

/-- Different timers have different numbers, below the next one, and each has its closure in the
registry under its `ref`. -/
structure Sound (s : TimerState C) : Prop where
  nodup : (s.live.map Timer.id).Nodup
  fresh : ∀ t ∈ s.live, t.id < s.next
  registered : ∀ t ∈ s.live, s.registry t.ref = some t.id

theorem sound_new : (new C).Sound := ⟨List.nodup_nil, nofun, nofun⟩

/-- The state keeps its registry and counter, and the timers that exist are the same up to their
expiry times, or fewer. -/
theorem Sound.of_subperm {s s' : TimerState C} (h : s.Sound) (hregistry : s'.registry = s.registry)
    (hnext : s'.next = s.next)
    (hlive : (s'.live.map fun t => (t.id, t.ref)).Subperm (s.live.map fun t => (t.id, t.ref))) :
    s'.Sound := by
  have hmem : ∀ t ∈ s'.live, ∃ u ∈ s.live, u.id = t.id ∧ u.ref = t.ref := fun t ht => by
    obtain ⟨u, hu, heq⟩ := List.mem_map.1 (hlive.subset (List.mem_map.2 ⟨t, ht, rfl⟩))
    exact ⟨u, hu, (Prod.mk.inj heq).1, (Prod.mk.inj heq).2⟩
  refine ⟨?_, ?_, ?_⟩
  · obtain ⟨l, hperm, hsub⟩ := hlive
    have hnodup : ((s.live.map fun t => (t.id, t.ref)).map Prod.fst).Nodup := by
      rw [List.map_map]
      exact h.nodup
    have hids := (hperm.map Prod.fst).nodup_iff.1 (hnodup.sublist (hsub.map Prod.fst))
    rw [List.map_map] at hids
    exact hids
  · intro t ht
    obtain ⟨u, hu, hid, -⟩ := hmem t ht
    rw [hnext, ← hid]
    exact h.fresh u hu
  · intro t ht
    obtain ⟨u, hu, hid, href⟩ := hmem t ht
    rw [hregistry, ← hid, ← href]
    exact h.registered u hu

/-- Two timers with one `ref` are one timer. -/
theorem Sound.id_eq_of_ref_eq {s : TimerState C} (h : s.Sound) {t u : Timer C} (ht : t ∈ s.live)
    (hu : u ∈ s.live) (href : t.ref = u.ref) : t.id = u.id := by
  have := h.registered t ht
  rw [href, h.registered u hu, Option.some.injEq] at this
  exact this.symm

theorem mem_live_of_timers {s : TimerState C} {t : Timer C} (h : t ∈ s.timers) : t ∈ s.live :=
  List.mem_append_right _ h

theorem Sound.newtimer {s : TimerState C} (h : s.Sound) {ref : ℤ} (href : s.registry ref = none)
    (milliseconds : ℤ) (forever : Bool) (ctx : C) (now : ℕ) :
    (s.newtimer milliseconds forever ctx now ref).Sound := by
  have hperm : (s.newtimer milliseconds forever ctx now ref).live.Perm
      (Timer.new s.next now (uint64 milliseconds) forever ref ctx :: s.live) :=
    ((timerListAdd_perm _ _).append_left _).trans List.perm_middle
  refine ⟨?_, ?_, ?_⟩
  · rw [(hperm.map Timer.id).nodup_iff, List.map_cons, List.nodup_cons]
    refine ⟨?_, h.nodup⟩
    intro hmem
    obtain ⟨t, ht, hid⟩ := List.mem_map.1 hmem
    exact absurd hid (h.fresh t ht).ne
  · intro t ht
    rcases List.mem_cons.1 (hperm.subset ht) with rfl | ht
    · exact Nat.lt_succ_self _
    · exact Nat.lt_succ_of_lt (h.fresh t ht)
  · intro t ht
    rcases List.mem_cons.1 (hperm.subset ht) with rfl | hold
    · exact Function.update_self _ _ _
    · have hne : t.ref ≠ ref := by
        intro heq
        rw [← heq, h.registered t hold] at href
        cases href
      exact (Function.update_of_ne hne _ _).trans (h.registered t hold)

theorem Sound.removeTimer {s : TimerState C} (h : s.Sound) (ref : ℤ) : (s.removeTimer ref).Sound := by
  unfold TimerState.removeTimer
  rcases hfind : timerListFind s.timers ref with _ | t
  · exact h
  · have ht := mem_live_of_timers (timerListFind_some hfind).1
    have hsub : ({ s with
        timers := timerListRemoveByNode s.timers t
        registry := Function.update s.registry t.ref none } : TimerState C).live.Sublist s.live :=
      List.filter_sublist.append_left _
    refine ⟨h.nodup.sublist (hsub.map _), fun u hu => h.fresh u (hsub.subset hu), ?_⟩
    intro u hu
    have hne : u.ref ≠ t.ref := by
      intro href
      have hid := h.id_eq_of_ref_eq (hsub.subset hu) ht href
      rcases List.mem_append.1 hu with htaken | hlist
      · -- The timer that is firing is not the one that was found in the list.
        have hnodup := h.nodup
        rw [live, List.map_append, List.nodup_append] at hnodup
        exact hnodup.2.2 u.id (List.mem_map_of_mem htaken) t.id
          (List.mem_map_of_mem (timerListFind_some hfind).1) hid
      · exact (mem_timerListRemoveByNode.1 hlist).2 hid
    exact (Function.update_of_ne hne _ _).trans (h.registered u (hsub.subset hu))

theorem Sound.runTurn {s : TimerState C} (h : s.Sound) {now : ℕ} (hcontrol : s.control = .running now) :
    (s.runTurn now).Sound := by
  have hlive : s.live = s.timers := by rw [live, taken, hcontrol]; rfl
  unfold TimerState.runTurn
  split
  · rename_i hnil
    exact h.of_subperm rfl rfl (by rw [hlive, hnil]; exact .refl _)
  · rename_i t ts hcons
    split_ifs
    · unfold eventTimer
      split <;> exact h.of_subperm rfl rfl (by rw [hlive, hcons]; exact .refl _)
    · exact h.of_subperm rfl rfl (by rw [hlive]; exact .refl _)

theorem Sound.callbackEnd {s : TimerState C} (h : s.Sound) {now : ℕ} {t : Timer C} {called : Bool}
    (hcontrol : s.control = .firing now t called) : (s.callbackEnd now t).Sound := by
  have hlive : s.live = t :: s.timers := by rw [live, taken, hcontrol]; rfl
  unfold TimerState.callbackEnd
  split_ifs
  · refine h.of_subperm rfl rfl ?_
    rw [hlive]
    exact ((timerListAdd_perm _ _).map _).subperm
  · refine h.of_subperm rfl rfl ?_
    rw [hlive]
    exact (List.sublist_cons_self _ _).subperm

/-- Every step keeps the invariant. -/
theorem Sound.step {s s' : TimerState C} (h : s.Sound) {e : TimerEvent C} (hstep : s.step e = some s') :
    s'.Sound := by
  cases e with
  | newtimer milliseconds forever ctx now ref =>
    simp only [TimerState.step] at hstep
    split_ifs at hstep with hcond
    cases hstep
    exact h.newtimer hcond.2 milliseconds forever ctx now
  | removetimer ref =>
    simp only [TimerState.step] at hstep
    split_ifs at hstep
    cases hstep
    exact h.removeTimer ref
  | runBegin now =>
    simp only [TimerState.step] at hstep
    split at hstep <;> cases hstep
    rename_i hcontrol
    exact h.of_subperm rfl rfl (by
      have hlive : s.live = s.timers := by rw [live, taken, hcontrol]; rfl
      rw [hlive]
      exact .refl _)
  | runTurn =>
    simp only [TimerState.step] at hstep
    split at hstep <;> cases hstep
    rename_i now hcontrol
    exact h.runTurn hcontrol
  | callbackEnd =>
    simp only [TimerState.step] at hstep
    split at hstep <;> cases hstep
    rename_i now t called hcontrol
    exact h.callbackEnd hcontrol

/-- So every state reached satisfies it. -/
theorem sound_of_run {s : TimerState C} {es : List (TimerEvent C)}
    (hrun : (timerMachine C).run (new C) es = some s) : s.Sound :=
  Machine.invariant (M := timerMachine C) (fun _ _ _ hs hstep => hs.step hstep) sound_new hrun

end TimerState

end Slam
