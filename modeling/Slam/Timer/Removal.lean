import Slam.Timer.TimerList

/-!
# When removing a timer is effective

While the callback of a timer executes, the timer is not in the list: `slam_timer_list_run` has taken
it out and puts a forever timer back afterwards. `cc.removetimer` looks only in the list, so a forever
timer that removes itself is not found, and fires again.

`removal_effective_iff` says that this is the only exception. In any state of any run, removing an
existing timer keeps its callback from ever being called again if and only if it is not a forever
timer whose callback is executing. For one direction, `Done` is kept by every step; for the other, a
run is built in which the timer, put back alone into the list, fires once more.
-/

namespace Slam
namespace TimerState

variable {C : Type*}

/-- The callback of the timer is executing. -/
def Fires (s : TimerState C) (t : Timer C) : Prop := ∃ now, s.control = .firing now t true

/-- The calls made since `s` are not calls of closure `id`. -/
def NotCalled (s s' : TimerState C) (id : ℕ) : Prop :=
  ∃ later, s'.invoked = s.invoked ++ later ∧ ∀ c ∈ later, c.closure ≠ id

/-- However the worker goes on after `cc.removetimer` of the timer, its callback is not called. -/
def RemovalEffective (s : TimerState C) (t : Timer C) : Prop :=
  ∀ es s', (timerMachine C).run s (.removetimer t.ref :: es) = some s' → NotCalled s s' t.id

/-! ### A timer that is done stays done -/

/-- Timer `id` is not in the list, and if the loop has taken it, it will not be put back. -/
structure Done (s : TimerState C) (id : ℕ) : Prop where
  old : id < s.next
  unlisted : ∀ t ∈ s.timers, t.id ≠ id
  once : ∀ t, s.taken = some t → t.id = id → t.forever = false

theorem notCalled_refl (s : TimerState C) (id : ℕ) : NotCalled s s id := ⟨[], by simp, nofun⟩

theorem NotCalled.trans {s s' s'' : TimerState C} {id : ℕ} (h : NotCalled s s' id)
    (h' : NotCalled s' s'' id) : NotCalled s s'' id := by
  obtain ⟨later, heq, hlater⟩ := h
  obtain ⟨later', heq', hlater'⟩ := h'
  refine ⟨later ++ later', by rw [heq', heq, List.append_assoc], ?_⟩
  intro c hc
  rcases List.mem_append.1 hc with hc | hc
  · exact hlater c hc
  · exact hlater' c hc

theorem Done.runTurn {s : TimerState C} {id : ℕ} (hs : s.Sound) (h : s.Done id) (now : ℕ) :
    (s.runTurn now).Done id ∧ NotCalled s (s.runTurn now) id := by
  unfold TimerState.runTurn
  split
  · exact ⟨⟨h.old, h.unlisted, nofun⟩, notCalled_refl s id⟩
  · rename_i t ts hcons
    have ht : t ∈ s.timers := by rw [hcons]; exact List.mem_cons_self ..
    have hne : t.id ≠ id := h.unlisted t ht
    have hrest : ∀ u ∈ ts, u.id ≠ id := fun u hu =>
      h.unlisted u (by rw [hcons]; exact List.mem_cons_of_mem _ hu)
    split_ifs
    · have hreg := hs.registered t (mem_live_of_timers ht)
      simp only [eventTimer, hreg]
      refine ⟨⟨h.old, hrest, ?_⟩, [⟨t.id, t.ref, t.ctx⟩], rfl, ?_⟩
      · rintro u ⟨rfl⟩ hid
        exact absurd hid hne
      · intro c hc
        rw [List.mem_singleton] at hc
        subst hc
        exact hne
    · exact ⟨⟨h.old, h.unlisted, nofun⟩, notCalled_refl s id⟩

theorem Done.callbackEnd {s : TimerState C} {id : ℕ} (h : s.Done id) {now : ℕ} {t : Timer C}
    {called : Bool} (hcontrol : s.control = .firing now t called) :
    (s.callbackEnd now t).Done id ∧ NotCalled s (s.callbackEnd now t) id := by
  have htaken : s.taken = some t := by rw [taken, hcontrol]
  unfold TimerState.callbackEnd
  split_ifs with hforever
  · refine ⟨⟨h.old, ?_, by rintro _ ⟨⟩⟩, notCalled_refl s id⟩
    intro u hu
    -- What is added again is a forever timer, and the one that is done is not.
    rcases List.mem_cons.1 ((timerListAdd_perm _ _).subset hu) with rfl | hu
    · intro hid
      have honce := h.once t htaken hid
      rw [hforever] at honce
      cases honce
    · exact h.unlisted u hu
  · exact ⟨⟨h.old, h.unlisted, by rintro _ ⟨⟩⟩, notCalled_refl s id⟩

/-- No step calls the closure of a timer that is done, or revives it. -/
theorem Done.step {s s' : TimerState C} {id : ℕ} (hs : s.Sound) (h : s.Done id) {e : TimerEvent C}
    (hstep : s.step e = some s') : s'.Done id ∧ NotCalled s s' id := by
  cases e with
  | newtimer milliseconds forever ctx now ref =>
    simp only [TimerState.step] at hstep
    split_ifs at hstep
    cases hstep
    refine ⟨⟨Nat.lt_succ_of_lt h.old, ?_, h.once⟩, notCalled_refl s id⟩
    intro u hu
    rcases List.mem_cons.1 ((timerListAdd_perm _ _).subset hu) with rfl | hu
    · exact h.old.ne'
    · exact h.unlisted u hu
  | removetimer ref =>
    simp only [TimerState.step] at hstep
    split_ifs at hstep
    cases hstep
    unfold removeTimer
    split
    · exact ⟨h, notCalled_refl s id⟩
    · exact ⟨⟨h.old, fun u hu => h.unlisted u (mem_timerListRemoveByNode.1 hu).1, h.once⟩,
        notCalled_refl s id⟩
  | runBegin now =>
    simp only [TimerState.step] at hstep
    split at hstep <;> cases hstep
    exact ⟨⟨h.old, h.unlisted, by rintro _ ⟨⟩⟩, notCalled_refl s id⟩
  | runTurn =>
    simp only [TimerState.step] at hstep
    split at hstep <;> cases hstep
    exact h.runTurn hs _
  | callbackEnd =>
    simp only [TimerState.step] at hstep
    split at hstep <;> cases hstep
    rename_i now t called hcontrol
    exact h.callbackEnd hcontrol

theorem Done.run {s s' : TimerState C} {id : ℕ} (hs : s.Sound) (h : s.Done id)
    {es : List (TimerEvent C)} (hrun : (timerMachine C).run s es = some s') : NotCalled s s' id :=
  (Machine.invariant (M := timerMachine C)
    (I := fun u => u.Sound ∧ u.Done id ∧ NotCalled s u id)
    (fun _ _ _ hu hstep =>
      have hnext := hu.2.1.step hu.1 hstep
      ⟨hu.1.step hstep, hnext.1, hu.2.2.trans hnext.2⟩)
    ⟨hs, h, notCalled_refl s id⟩ hrun).2.2

/-- Removing a timer makes it done, unless it is a forever timer whose callback is executing. -/
theorem done_removeTimer {s : TimerState C} (hs : s.Sound) {t : Timer C} (ht : t ∈ s.live)
    (hself : ∀ u, s.taken = some u → u.id = t.id → u.forever = false) :
    (s.removeTimer t.ref).Done t.id := by
  have hold := hs.fresh t ht
  unfold removeTimer
  rcases hfind : timerListFind s.timers t.ref with _ | u
  · refine ⟨hold, ?_, hself⟩
    intro u hu hid
    -- A timer of the list with the same number would be `t`, and would have been found.
    have heq : u = t := List.inj_on_of_nodup_map hs.nodup (mem_live_of_timers hu) ht hid
    exact timerListFind_none.1 hfind u hu (by rw [heq])
  · obtain ⟨hu, href⟩ := timerListFind_some hfind
    have hid : u.id = t.id := hs.id_eq_of_ref_eq (mem_live_of_timers hu) ht href
    exact ⟨hold, fun v hv => hid ▸ (mem_timerListRemoveByNode.1 hv).2, hself⟩

/-! ### A forever timer that removes itself fires again -/

/-- While a callback executes it may remove all timers of the list, one by one. -/
theorem run_removeAll {s : TimerState C} (hs : s.Sound) (hlua : s.luaRuns = true) :
    ∃ es s', (timerMachine C).run s es = some s' ∧ s'.Sound ∧ s'.timers = [] ∧
      s'.control = s.control ∧ s'.invoked = s.invoked := by
  induction hlen : s.timers.length generalizing s with
  | zero => exact ⟨[], s, rfl, hs, List.length_eq_zero_iff.1 hlen, rfl, rfl⟩
  | succ n ih =>
    obtain ⟨t, ts, hcons⟩ := List.exists_cons_of_length_eq_add_one hlen
    have hfind : timerListFind s.timers t.ref = some t := by simp [timerListFind, hcons]
    have hremoved : s.removeTimer t.ref = { s with
        timers := timerListRemoveByNode s.timers t
        registry := Function.update s.registry t.ref none } := by
      simp only [removeTimer, hfind]
    have hstep : s.step (.removetimer t.ref) = some (s.removeTimer t.ref) := by
      simp only [TimerState.step, hlua, if_true]
    have hshort : (s.removeTimer t.ref).timers.length = n := by
      have hnodup : ((t :: ts).map Timer.id).Nodup := by
        rw [← hcons]
        exact hs.nodup.sublist ((List.sublist_append_right _ _).map _)
      rw [List.map_cons, List.nodup_cons] at hnodup
      have hkeep : timerListRemoveByNode ts t = ts := List.filter_eq_self.2 fun u hu => by
        have hne : u.id ≠ t.id := fun hid => hnodup.1 (hid ▸ List.mem_map_of_mem hu)
        simpa using hne
      have hdrop : timerListRemoveByNode (t :: ts) t = timerListRemoveByNode ts t := by
        simp [timerListRemoveByNode]
      rw [hcons, List.length_cons] at hlen
      rw [hremoved, hcons, hdrop, hkeep]
      exact Nat.succ_injective hlen
    obtain ⟨es, s', hrun, hs', hnil, hcontrol, hinvoked⟩ :=
      ih (hs.step hstep) (by rw [hremoved]; exact hlua) hshort
    refine ⟨.removetimer t.ref :: es, s', ?_, hs', hnil, ?_, ?_⟩
    · exact Machine.run_cons_eq_some.2 ⟨_, hstep, hrun⟩
    · rw [hcontrol, hremoved]
    · rw [hinvoked, hremoved]

/-- The only timer of the list is called in some continuation of the loop. -/
theorem run_fires {s : TimerState C} (hs : s.Sound) {now : ℕ} {t : Timer C}
    (hcontrol : s.control = .running now) (htimers : s.timers = [t]) :
    ∃ es s', (timerMachine C).run s es = some s' ∧
      s'.invoked = s.invoked ++ [⟨t.id, t.ref, t.ctx⟩] := by
  have hreg : s.registry t.ref = some t.id :=
    hs.registered t (mem_live_of_timers (by rw [htimers]; exact List.mem_singleton_self t))
  by_cases hdue : t.expireTime ≤ now
  · refine ⟨[.runTurn], s.runTurn now, ?_, ?_⟩
    · exact Machine.run_cons_eq_some.2 ⟨s.runTurn now, by
        simp only [timerMachine, TimerState.step, hcontrol], rfl⟩
    · simp only [TimerState.runTurn, htimers, hdue, if_true, eventTimer, hreg]
  · -- Not due in this pass: a pass at the expiry time calls it.
    refine ⟨[.runTurn, .runBegin t.expireTime, .runTurn],
      ({ s with control := .running t.expireTime }).runTurn t.expireTime, ?_, ?_⟩
    · have hfirst : s.step .runTurn = some { s with control := .idle } := by
        simp only [TimerState.step, hcontrol, TimerState.runTurn, htimers, hdue, if_false]
      refine Machine.run_cons_eq_some.2 ⟨_, hfirst, ?_⟩
      refine Machine.run_cons_eq_some.2 ⟨{ s with control := .running t.expireTime }, rfl, ?_⟩
      exact Machine.run_cons_eq_some.2 ⟨_, rfl, rfl⟩
    · simp only [TimerState.runTurn, htimers, le_refl, if_true, eventTimer, hreg]

/-- The timer that has been taken off the list is not found there, so removing it does nothing. -/
theorem removeTimer_of_taken {s : TimerState C} (hs : s.Sound) {t : Timer C}
    (htaken : s.taken = some t) : s.removeTimer t.ref = s := by
  have hlive : s.live = t :: s.timers := by rw [live, htaken]; rfl
  have hnone : timerListFind s.timers t.ref = none := by
    rw [timerListFind_none]
    intro u hu href
    have hnodup := hs.nodup
    rw [hlive, List.map_cons, List.nodup_cons] at hnodup
    have hid := hs.id_eq_of_ref_eq (mem_live_of_timers hu)
      (by rw [hlive]; exact List.mem_cons_self ..) href
    exact hnodup.1 (hid ▸ List.mem_map_of_mem hu)
  rw [removeTimer, hnone]

/-- A forever timer that removes itself comes back: `slam_timer_list_run` adds it again after its
callback. -/
theorem fires_again {s : TimerState C} (hs : s.Sound) {t : Timer C} (hfires : s.Fires t)
    (hforever : t.forever = true) : ¬ s.RemovalEffective t := by
  obtain ⟨now, hcontrol⟩ := hfires
  have hlua : s.luaRuns = true := by rw [luaRuns, hcontrol]
  have hnotfound : s.removeTimer t.ref = s := removeTimer_of_taken hs (by rw [taken, hcontrol])
  -- The callback goes on to remove all other timers, so that `t` is the next one to fire.
  obtain ⟨es₁, s₁, hrun₁, hs₁, htimers₁, hcontrol₁, hinvoked₁⟩ := run_removeAll hs hlua
  rw [hcontrol] at hcontrol₁
  have hend : s₁.step .callbackEnd = some (s₁.callbackEnd now t) := by
    simp only [TimerState.step, hcontrol₁]
  have hback : (s₁.callbackEnd now t).timers =
      [{ t with expireTime := uint64 (now + t.interval) }] := by
    simp only [TimerState.callbackEnd, hforever, if_true, htimers₁, timerListAdd]
  have hrunning : (s₁.callbackEnd now t).control = .running now := by
    simp only [TimerState.callbackEnd, hforever, if_true]
  obtain ⟨es₂, s₂, hrun₂, hinvoked₂⟩ := run_fires (hs₁.step hend) hrunning hback
  have hsame : (s₁.callbackEnd now t).invoked = s.invoked := by
    simp only [TimerState.callbackEnd, hforever, if_true, hinvoked₁]
  intro heffective
  obtain ⟨later, heq, hlater⟩ := heffective (es₁ ++ .callbackEnd :: es₂) s₂ (by
    refine Machine.run_cons_eq_some.2 ⟨s, ?_, ?_⟩
    · simp only [timerMachine, TimerState.step, hlua, if_true, hnotfound]
    · rw [Machine.run_append, hrun₁, Option.bind_some]
      exact Machine.run_cons_eq_some.2 ⟨_, hend, hrun₂⟩)
  rw [hinvoked₂, hsame, List.append_cancel_left_eq] at heq
  exact hlater ⟨t.id, t.ref, t.ctx⟩ (by rw [← heq]; exact List.mem_singleton_self _) rfl

theorem fires_of_taken {s : TimerState C} {t : Timer C} (hlua : s.luaRuns = true)
    (htaken : s.taken = some t) : s.Fires t := by
  rcases hcontrol : s.control with _ | now | ⟨now, v, called⟩
  all_goals simp [taken, hcontrol, luaRuns, Fires] at htaken hlua ⊢
  exact ⟨htaken, hlua⟩

/-- **Timer removal.** In every state reached by any run, `cc.removetimer` of an existing timer keeps
its callback from being called ever again, if and only if it is not a forever timer whose own callback
is executing. -/
theorem removal_effective_iff {s : TimerState C} {es : List (TimerEvent C)} {t : Timer C}
    (hrun : (timerMachine C).run (new C) es = some s) (ht : t ∈ s.live) :
    s.RemovalEffective t ↔ ¬ (s.Fires t ∧ t.forever = true) := by
  have hs := sound_of_run hrun
  constructor
  · rintro heffective ⟨hfires, hforever⟩
    exact fires_again hs hfires hforever heffective
  · intro hnot es' s' hrun'
    obtain ⟨s₁, hstep, hrest⟩ := Machine.run_cons_eq_some.1 hrun'
    have hlua : s.luaRuns = true := by
      by_contra hlua
      simp [timerMachine, TimerState.step, hlua] at hstep
    simp only [timerMachine, TimerState.step, hlua, if_true, Option.some.injEq] at hstep
    subst hstep
    have hself : ∀ u, s.taken = some u → u.id = t.id → u.forever = false := by
      intro u htaken hid
      have hu : u ∈ s.live := by rw [live, htaken]; exact List.mem_cons_self ..
      obtain rfl : u = t := List.inj_on_of_nodup_map hs.nodup hu ht hid
      by_contra hforever
      exact hnot ⟨fires_of_taken hlua htaken, by simpa using hforever⟩
    have hdone := done_removeTimer hs ht hself
    have hstart : NotCalled s (s.removeTimer t.ref) t.id := by
      unfold removeTimer
      split <;> exact notCalled_refl s t.id
    exact hstart.trans (hdone.run (hs.removeTimer t.ref) hrest)

/-- A forever timer of ten milliseconds, in its callback at time 10. -/
def everyTen : TimerState Unit :=
  ((timerMachine Unit).run (new Unit) [.newtimer 10 true () 0 1, .runBegin 10, .runTurn]).getD (new Unit)

/-- A second timer, which the first one's callback may remove. -/
def everyTenAndAnother : TimerState Unit :=
  ((timerMachine Unit).run everyTen [.newtimer 5 false () 10 2]).getD (new Unit)

theorem removal_effective_other :
    everyTenAndAnother.RemovalEffective ⟨1, 5, 15, false, 2, ()⟩ := by
  have hrun : (timerMachine Unit).run (new Unit) [.newtimer 10 true () 0 1, .runBegin 10, .runTurn,
      .newtimer 5 false () 10 2] = some everyTenAndAnother := rfl
  refine (removal_effective_iff hrun (by decide)).2 ?_
  rintro ⟨-, hforever⟩
  cases hforever

/-- The callback removes its own timer, and is called again at time 20. -/
theorem self_removal_ineffective :
    ∃ es s t, (timerMachine Unit).run (new Unit) es = some s ∧ t ∈ s.live ∧ ¬ s.RemovalEffective t := by
  refine ⟨[.newtimer 10 true () 0 1, .runBegin 10, .runTurn], everyTen, ⟨0, 10, 10, true, 1, ()⟩, rfl,
    by decide, ?_⟩
  intro heffective
  obtain ⟨later, heq, hlater⟩ := heffective [.callbackEnd, .runTurn, .runBegin 20, .runTurn] _ rfl
  have hcalls : later = [⟨0, 1, ()⟩] := (List.append_cancel_left heq).symm
  exact hlater ⟨0, 1, ()⟩ (by rw [hcalls]; exact List.mem_singleton_self _) rfl

end TimerState
end Slam
