import Slam.Timer.TimerList

/-!
# When `slam_timer_list_run` terminates

The loop fires the head of the list while it is due at the time `nowtime` read before the loop, and
puts a forever timer back at `nowtime + interval`. Nothing keeps this sum above `nowtime`:
`cc.newtimer` converts any integer to `uint64_t`, so an interval can be zero, and a negative one makes
the sum wrap around. Such a timer is due again at once, and the loop never gets past it.

The callbacks of one run are a sequence of lists of references, those that each callback removes with
`cc.removetimer`. `timerListRun_terminates_iff` says that the loop ends whatever the callbacks remove
if and only if every forever timer that is due moves past `nowtime`: for one direction the number of
due timers decreases with each turn; for the other a due timer that does not move stays due, and the
list is sorted, so its head is due.
-/

namespace Slam
namespace TimerState

variable {C : Type*}

/-- One turn of the loop; the callback, if there is one, removes the timers `refs`. -/
def turn (s : TimerState C) (now : ℕ) (refs : List ℤ) : TimerState C :=
  match (s.runTurn now).control with
  | .firing _ t called =>
    ((if called then refs else []).foldl removeTimer (s.runTurn now)).callbackEnd now t
  | _ => s.runTurn now

/-- `slam_timer_list_run` from the test of its loop on, where the `n`-th callback removes `script n`;
`none` when it takes more than `fuel` turns. -/
def timerListRun (now : ℕ) : (ℕ → List ℤ) → ℕ → TimerState C → Option (TimerState C)
  | _, 0, _ => none
  | script, fuel + 1, s =>
    match s.control with
    | .running _ => timerListRun now (fun n => script (n + 1)) fuel (s.turn now (script 0))
    | _ => some s

/-- `slam_timer_list_run`, called at the time `now`, returns whatever timers its callbacks remove. -/
def RunTerminates (s : TimerState C) (now : ℕ) : Prop :=
  ∀ script, ∃ fuel, (timerListRun now script fuel { s with control := .running now }).isSome

/-- A forever timer that is due at `now` is put back behind `now`. -/
def Advances (now : ℕ) (t : Timer C) : Prop :=
  t.forever = true → t.expireTime ≤ now → now < uint64 (now + t.interval)

/-- The list is in the order of expiry times. -/
def Sorted (s : TimerState C) : Prop := s.timers.Pairwise fun t u => t.expireTime ≤ u.expireTime

/-! ### The list is sorted in every state -/

theorem sorted_timerListAdd {ts : List (Timer C)} (t : Timer C)
    (h : ts.Pairwise fun t u => t.expireTime ≤ u.expireTime) :
    (timerListAdd t ts).Pairwise fun t u => t.expireTime ≤ u.expireTime :=
  timerListAdd_pairwise (fun _ _ => id) (fun _ _ => le_of_lt) (fun _ _ => id) h

theorem removeTimer_sublist (s : TimerState C) (ref : ℤ) :
    (s.removeTimer ref).timers.Sublist s.timers := by
  unfold removeTimer
  split
  · exact .refl _
  · exact List.filter_sublist

theorem eventTimer_timers (s : TimerState C) (now : ℕ) (t : Timer C) :
    (s.eventTimer now t).timers = s.timers := by
  unfold eventTimer
  split <;> rfl

theorem eventTimer_control (s : TimerState C) (now : ℕ) (t : Timer C) :
    ∃ called, (s.eventTimer now t).control = .firing now t called := by
  unfold eventTimer
  split
  · exact ⟨false, rfl⟩
  · exact ⟨true, rfl⟩

theorem runTurn_sublist (s : TimerState C) (now : ℕ) : (s.runTurn now).timers.Sublist s.timers := by
  unfold runTurn
  split
  · exact .refl _
  · rename_i t ts hcons
    split_ifs
    · rw [eventTimer_timers, hcons]
      exact List.sublist_cons_self t ts
    · exact .refl _

theorem Sorted.callbackEnd {s : TimerState C} (h : s.Sorted) (now : ℕ) (t : Timer C) :
    (s.callbackEnd now t).Sorted := by
  unfold TimerState.callbackEnd
  split_ifs
  · exact sorted_timerListAdd _ h
  · exact h

theorem Sorted.step {s s' : TimerState C} (h : s.Sorted) {e : TimerEvent C}
    (hstep : s.step e = some s') : s'.Sorted := by
  cases e with
  | newtimer milliseconds forever ctx now ref =>
    simp only [TimerState.step] at hstep
    split_ifs at hstep
    cases hstep
    exact sorted_timerListAdd _ h
  | removetimer ref =>
    simp only [TimerState.step] at hstep
    split_ifs at hstep
    cases hstep
    exact h.sublist (s.removeTimer_sublist ref)
  | runBegin now =>
    simp only [TimerState.step] at hstep
    split at hstep <;> cases hstep
    exact h
  | runTurn =>
    simp only [TimerState.step] at hstep
    split at hstep <;> cases hstep
    exact h.sublist (s.runTurn_sublist _)
  | callbackEnd =>
    simp only [TimerState.step] at hstep
    split at hstep <;> cases hstep
    exact h.callbackEnd _ _

theorem sorted_of_run {s : TimerState C} {es : List (TimerEvent C)}
    (hrun : (timerMachine C).run (new C) es = some s) : s.Sorted := by
  have hnew : (new C).Sorted := List.Pairwise.nil
  exact Machine.invariant (fun _ _ _ hs hstep => hs.step hstep) hnew hrun

/-! ### One turn -/

theorem foldl_removeTimer_sublist (refs : List ℤ) (s : TimerState C) :
    (refs.foldl removeTimer s).timers.Sublist s.timers := by
  induction refs generalizing s with
  | nil => exact .refl _
  | cons ref refs ih => exact (ih (s.removeTimer ref)).trans (s.removeTimer_sublist ref)

/-- What a turn does: either no timer is due and the loop ends, or the head is due and taken, the
callback removes some of the others, and the head is put back if it is a forever timer. -/
theorem turn_cases (s : TimerState C) (now : ℕ) (refs : List ℤ) :
    ((∀ t ∈ s.timers.head?, now < t.expireTime) ∧ (s.turn now refs).control = .idle) ∨
    ∃ t ts us, s.timers = t :: ts ∧ t.expireTime ≤ now ∧ us.Sublist ts ∧ (refs = [] → us = ts) ∧
      (s.turn now refs).control = .running now ∧
      (s.turn now refs).timers =
        if t.forever then timerListAdd { t with expireTime := uint64 (now + t.interval) } us
        else us := by
  rcases hlist : s.timers with _ | ⟨t, ts⟩
  · refine .inl ⟨nofun, ?_⟩
    simp [turn, runTurn, hlist]
  by_cases hdue : t.expireTime ≤ now
  · -- The head is taken; the callback works on the rest.
    have hturn : s.runTurn now = ({ s with timers := ts }).eventTimer now t := by
      simp only [runTurn, hlist, if_pos hdue]
    obtain ⟨called, hcontrol⟩ := ({ s with timers := ts }).eventTimer_control now t
    have htimers : (s.runTurn now).timers = ts := by rw [hturn, eventTimer_timers]
    have hbody : s.turn now refs =
        ((if called then refs else []).foldl removeTimer (s.runTurn now)).callbackEnd now t := by
      simp only [turn, hturn, hcontrol]
    refine .inr ⟨t, ts, ((if called then refs else []).foldl removeTimer (s.runTurn now)).timers, rfl,
      hdue, ?_, ?_, ?_, ?_⟩
    · rw [← htimers]
      exact foldl_removeTimer_sublist _ _
    · rintro rfl
      rw [ite_self, List.foldl_nil, htimers]
    · rw [hbody]
      unfold callbackEnd
      split_ifs <;> rfl
    · rw [hbody]
      unfold callbackEnd
      split_ifs <;> rfl
  · refine .inl ⟨?_, ?_⟩
    · rintro u ⟨rfl⟩
      exact not_le.1 hdue
    · simp [turn, runTurn, hlist, hdue]

/-! ### Every due timer moves on -/

/-- The number of timers that are due. -/
def due (s : TimerState C) (now : ℕ) : ℕ := s.timers.countP fun t => t.expireTime ≤ now

/-- With one turn for each due timer and two more the loop ends. -/
theorem timerListRun_isSome {now : ℕ} (fuel : ℕ) :
    ∀ {s : TimerState C} (script : ℕ → List ℤ), s.control = .running now →
      (∀ t ∈ s.timers, Advances now t) → s.due now + 1 < fuel →
      (timerListRun now script fuel s).isSome := by
  induction fuel with
  | zero => exact fun _ _ _ hfuel => absurd hfuel (Nat.not_lt_zero _)
  | succ fuel ih =>
    intro s script hcontrol hadvances hfuel
    simp only [timerListRun, hcontrol]
    obtain ⟨-, hidle⟩ | ⟨t, ts, us, hlist, hdue, hsub, -, hrunning, htimers⟩ :=
      s.turn_cases now (script 0)
    · obtain ⟨fuel, rfl⟩ := Nat.exists_eq_succ_of_ne_zero (show fuel ≠ 0 by omega)
      simp only [timerListRun, hidle, Option.isSome_some]
    · -- The head was due, and what is put back is not: one due timer fewer.
      have hcount : us.countP (fun t => t.expireTime ≤ now) + 1 ≤ s.due now := by
        rw [due, hlist, List.countP_cons_of_pos (by simpa using hdue)]
        exact Nat.succ_le_succ hsub.countP_le
      have hus : ∀ u ∈ us, Advances now u := fun u hu =>
        hadvances u (by rw [hlist]; exact List.mem_cons_of_mem t (hsub.subset hu))
      refine ih _ hrunning ?_ ?_
      · intro u hu
        rw [htimers] at hu
        split_ifs at hu with hforever
        · rcases List.mem_cons.1 ((timerListAdd_perm _ _).subset hu) with rfl | hu
          · exact fun _ _ => hadvances t (by rw [hlist]; simp) hforever hdue
          · exact hus u hu
        · exact hus u hu
      · rw [due, htimers]
        split_ifs with hforever
        · have hlater := hadvances t (by rw [hlist]; simp) hforever hdue
          rw [(timerListAdd_perm _ _).countP_eq, List.countP_cons_of_neg (by simpa using hlater)]
          omega
        · omega

/-! ### A due timer that does not move on -/

/-- A timer that is due, and due again when it is put back. -/
def Stuck (s : TimerState C) (now : ℕ) : Prop :=
  ∃ t ∈ s.timers, t.forever = true ∧ t.expireTime ≤ now ∧ uint64 (now + t.interval) ≤ now

/-- A turn whose callback removes nothing leaves such a timer in the list, and due. -/
theorem Stuck.turn {s : TimerState C} {now : ℕ} (h : s.Stuck now) (hsorted : s.Sorted) :
    (s.turn now []).Stuck now ∧ (s.turn now []).Sorted ∧
      (s.turn now []).control = .running now := by
  obtain ⟨v, hv, hforever, hdue, hagain⟩ := h
  obtain ⟨hhead, -⟩ | ⟨t, ts, us, hlist, -, -, hall, hrunning, htimers⟩ := s.turn_cases now []
  · -- The head is not later than the timer, so it is due.
    obtain ⟨t, ts, hlist⟩ := List.exists_cons_of_ne_nil (List.ne_nil_of_mem hv)
    rw [Sorted, hlist] at hsorted
    rw [hlist] at hv hhead
    have hlate := hhead t rfl
    rcases List.mem_cons.1 hv with rfl | hv
    · omega
    · have := (List.pairwise_cons.1 hsorted).1 v hv
      omega
  · rw [hall rfl] at htimers
    rw [Sorted, hlist, List.pairwise_cons] at hsorted
    rw [hlist] at hv
    refine ⟨?_, ?_, hrunning⟩
    · rcases List.mem_cons.1 hv with rfl | hv
      · rw [if_pos hforever] at htimers
        refine ⟨{ v with expireTime := uint64 (now + v.interval) }, ?_, hforever, hagain, hagain⟩
        rw [htimers]
        exact (timerListAdd_perm _ _).mem_iff.2 (List.mem_cons_self ..)
      · refine ⟨v, ?_, hforever, hdue, hagain⟩
        rw [htimers]
        split_ifs
        · exact (timerListAdd_perm _ _).mem_iff.2 (List.mem_cons_of_mem _ hv)
        · exact hv
    · rw [Sorted, htimers]
      split_ifs
      · exact sorted_timerListAdd _ hsorted.2
      · exact hsorted.2

/-- So the loop goes on for ever. -/
theorem Stuck.timerListRun_eq_none {now : ℕ} (fuel : ℕ) :
    ∀ {s : TimerState C}, s.Stuck now → s.Sorted → s.control = .running now →
      timerListRun now (fun _ => []) fuel s = none := by
  induction fuel with
  | zero => exact fun _ _ _ => rfl
  | succ fuel ih =>
    intro s hstuck hsorted hcontrol
    simp only [timerListRun, hcontrol]
    obtain ⟨hstuck', hsorted', hcontrol'⟩ := hstuck.turn hsorted
    exact ih hstuck' hsorted' hcontrol'

/-- **When the loop ends**: in every state the worker reaches, `slam_timer_list_run` returns whatever
its callbacks remove if and only if every forever timer that is due moves past `nowtime`. -/
theorem timerListRun_terminates_iff {s : TimerState C} {es : List (TimerEvent C)}
    (hrun : (timerMachine C).run (new C) es = some s) (now : ℕ) :
    s.RunTerminates now ↔ ∀ t ∈ s.timers, Advances now t := by
  constructor
  · intro hterm
    by_contra hstuck
    obtain ⟨t, ht, hforever, hdue, hagain⟩ : s.Stuck now := by
      simpa only [Stuck, Advances, not_forall, not_lt, exists_prop] using hstuck
    obtain ⟨fuel, hsome⟩ := hterm fun _ => []
    have hsorted : s.Sorted := sorted_of_run hrun
    have hnone := Stuck.timerListRun_eq_none (s := { s with control := .running now }) fuel
      ⟨t, ht, hforever, hdue, hagain⟩ hsorted rfl
    rw [hnone] at hsome
    cases hsome
  · intro hadvances script
    exact ⟨s.due now + 2, timerListRun_isSome _ script rfl hadvances (Nat.lt_succ_self _)⟩

/-- A worker whose only timer is `cc.newtimer(0, true, …)`. -/
def zeroTimer : TimerState Unit := (new Unit).newtimer 0 true () 0 1

theorem timerListRun_terminates_zero_once :
    (timerMachine Unit).run (new Unit) [.newtimer 0 false () 0 1] =
        some ((new Unit).newtimer 0 false () 0 1) ∧
      (((new Unit).newtimer 0 false () 0 1).RunTerminates 0 ↔
        ∀ t ∈ ((new Unit).newtimer 0 false () 0 1).timers, Advances 0 t) :=
  ⟨rfl, @timerListRun_terminates_iff Unit _ [.newtimer 0 false () 0 1] rfl 0⟩

/-- **It does not always end**: with the timer `cc.newtimer(0, true, …)` the loop never returns, if
its callback does nothing. -/
theorem zeroTimer_runs_forever :
    (timerMachine Unit).run (new Unit) [.newtimer 0 true () 0 1] = some zeroTimer ∧
      ∀ fuel, timerListRun 0 (fun _ => []) fuel { zeroTimer with control := .running 0 } = none := by
  refine ⟨rfl, ?_⟩
  intro fuel
  refine Stuck.timerListRun_eq_none fuel ?_ (List.pairwise_singleton _ _) rfl
  exact ⟨_, List.mem_singleton.2 rfl, rfl, by decide, by decide⟩

end TimerState
end Slam
