import Slam.Timer.TimerList

/-!
# The references of the timers

`cc.newtimer` stores its closure in the registry under a reference of `luaL_ref`, after all its
argument checks, so a refused call takes none. `cc.removetimer` is the only caller of `luaL_unref`:
`slam_timer_list_run` deletes a one-shot timer after its callback without releasing its reference.

`refs_accounted_iff` says what follows. Whenever no callback is executing, the references that are
held are exactly those of the timers in the list, without repetition, if and only if no one-shot
timer has expired so far. For one direction `Covered` is kept by every other step; for the other a
`Leak`, once there, stays: the reference is in use, so it is not handed out again, and no timer of
the list carries it, so it is not released.
-/

namespace Slam
namespace TimerState

variable {C : Type*}

/-- A timer callback is executing. -/
def CallbackExecuting (s : TimerState C) : Prop := ∃ now t, s.control = .firing now t true

/-- The references held in the registry are those of the timers in the list, and no two of these
carry the same one. -/
structure Accounted (s : TimerState C) : Prop where
  held_iff : ∀ ref, s.registry ref ≠ none ↔ ∃ t ∈ s.timers, t.ref = ref
  nodup : (s.timers.map Timer.ref).Nodup

/-- The step is not the end of a one-shot timer. -/
def NotExpiry (s : TimerState C) : TimerEvent C → Prop
  | .callbackEnd => ∀ t, s.taken = some t → t.forever = true
  | _ => True

/-- Every reference held is that of an existing timer. -/
def Covered (s : TimerState C) : Prop :=
  ∀ ref, s.registry ref ≠ none → ∃ t ∈ s.live, t.ref = ref

/-- Some reference is held that no existing timer has. -/
def Leak (s : TimerState C) : Prop :=
  ∃ ref, s.registry ref ≠ none ∧ ∀ t ∈ s.live, t.ref ≠ ref

/-! ### What a step does to the references -/

/-- A timer that is taken off the list has its closure called. -/
def Called (s : TimerState C) : Prop := ∀ now t called, s.control = .firing now t called → called = true

theorem Called.step {s s' : TimerState C} (hs : s.Sound) (h : s.Called) {e : TimerEvent C}
    (hstep : s.step e = some s') : s'.Called := by
  cases e with
  | newtimer milliseconds forever ctx now ref =>
    simp only [TimerState.step] at hstep
    split_ifs at hstep
    cases hstep
    exact h
  | removetimer ref =>
    simp only [TimerState.step] at hstep
    split_ifs at hstep
    cases hstep
    unfold removeTimer
    split <;> exact h
  | runBegin now =>
    simp only [TimerState.step] at hstep
    split at hstep <;> cases hstep
    rintro _ _ _ ⟨⟩
  | runTurn =>
    simp only [TimerState.step] at hstep
    split at hstep <;> cases hstep
    unfold TimerState.runTurn
    split
    · rintro _ _ _ ⟨⟩
    · rename_i t ts hcons
      split_ifs
      · have hreg := hs.registered t (mem_live_of_timers (by rw [hcons]; exact List.mem_cons_self ..))
        simp only [eventTimer, hreg]
        rintro now' t' called ⟨rfl⟩
        rfl
      · rintro _ _ _ ⟨⟩
  | callbackEnd =>
    simp only [TimerState.step] at hstep
    split at hstep <;> cases hstep
    unfold TimerState.callbackEnd
    split_ifs <;> rintro _ _ _ ⟨⟩

/-- What one step does to the references: `cc.newtimer` takes a new one for a new timer,
`cc.removetimer` releases that of a listed timer, and every other step keeps the registry and the
references of the existing timers, except that of a one-shot timer that ends. -/
theorem step_refs {s s' : TimerState C} {e : TimerEvent C} (hstep : s.step e = some s') :
    (∃ ref, s.registry ref = none ∧ (∀ r, s'.registry r ≠ none ↔ r = ref ∨ s.registry r ≠ none) ∧
      ∀ r, (∃ t ∈ s'.live, t.ref = r) ↔ r = ref ∨ ∃ t ∈ s.live, t.ref = r) ∨
    (∃ t ∈ s.timers, s' = { s with
      timers := timerListRemoveByNode s.timers t
      registry := Function.update s.registry t.ref none }) ∨
    (s'.registry = s.registry ∧ ∀ r, (∃ t ∈ s'.live, t.ref = r) ↔ ∃ t ∈ s.live, t.ref = r) ∨
    (∃ t, ¬ s.NotExpiry e ∧ s.taken = some t ∧ s'.registry = s.registry ∧ s'.live = s.timers) := by
  cases e with
  | newtimer milliseconds forever ctx now ref =>
    simp only [TimerState.step] at hstep
    split_ifs at hstep with hcond
    cases hstep
    refine .inl ⟨ref, hcond.2, ?_, ?_⟩
    · intro r
      by_cases hr : r = ref
      · subst hr
        simp [TimerState.newtimer]
      · simp [TimerState.newtimer, hr]
    · intro r
      have hperm : (s.newtimer milliseconds forever ctx now ref).live.Perm
          (Timer.new s.next now (uint64 milliseconds) forever ref ctx :: s.live) :=
        ((timerListAdd_perm _ _).append_left _).trans List.perm_middle
      simp only [hperm.mem_iff, List.exists_mem_cons_iff, Timer.new, eq_comm]
  | removetimer ref =>
    simp only [TimerState.step] at hstep
    split_ifs at hstep
    cases hstep
    unfold removeTimer
    split
    · exact .inr (.inr (.inl ⟨rfl, fun _ => Iff.rfl⟩))
    · rename_i t hfind
      exact .inr (.inl ⟨t, (timerListFind_some hfind).1, rfl⟩)
  | runBegin now =>
    simp only [TimerState.step] at hstep
    split at hstep <;> cases hstep
    rename_i hcontrol
    have hlive : s.live = s.timers := by rw [live, taken, hcontrol]; rfl
    exact .inr (.inr (.inl ⟨rfl, fun r => by rw [hlive]; rfl⟩))
  | runTurn =>
    simp only [TimerState.step] at hstep
    split at hstep <;> cases hstep
    rename_i now hcontrol
    have hlive : s.live = s.timers := by rw [live, taken, hcontrol]; rfl
    refine .inr (.inr (.inl ?_))
    rw [hlive]
    unfold TimerState.runTurn
    split
    · rename_i hnil
      exact ⟨rfl, fun r => by rw [hnil]; rfl⟩
    · rename_i t ts hcons
      split_ifs
      · unfold eventTimer
        split <;> exact ⟨rfl, fun r => by rw [hcons]; rfl⟩
      · exact ⟨rfl, fun r => Iff.rfl⟩
  | callbackEnd =>
    simp only [TimerState.step] at hstep
    split at hstep <;> cases hstep
    rename_i now t called hcontrol
    have htaken : s.taken = some t := by rw [taken, hcontrol]
    have hlive : s.live = t :: s.timers := by rw [live, htaken]; rfl
    unfold TimerState.callbackEnd
    split_ifs with hforever
    · refine .inr (.inr (.inl ⟨rfl, fun r => ?_⟩))
      have hperm := timerListAdd_perm { t with expireTime := uint64 (now + t.interval) } s.timers
      show (∃ u ∈ timerListAdd _ _, u.ref = r) ↔ _
      rw [hlive]
      simp only [hperm.mem_iff, List.exists_mem_cons_iff]
    · refine .inr (.inr (.inr ⟨t, ?_, htaken, rfl, rfl⟩))
      intro hguard
      exact hforever (hguard t htaken)

/-- After `cc.removetimer` of a listed timer, the references of the existing timers are the others. -/
theorem Sound.exists_ref_removed_iff {s : TimerState C} (hs : s.Sound) {t : Timer C} (ht : t ∈ s.timers)
    (r : ℤ) :
    (∃ u ∈ ({ s with
        timers := timerListRemoveByNode s.timers t
        registry := Function.update s.registry t.ref none } : TimerState C).live, u.ref = r) ↔
      r ≠ t.ref ∧ ∃ u ∈ s.live, u.ref = r := by
  have htlive := mem_live_of_timers ht
  have hmem : ∀ u, u ∈ ({ s with
      timers := timerListRemoveByNode s.timers t
      registry := Function.update s.registry t.ref none } : TimerState C).live ↔
      u ∈ s.live ∧ u.id ≠ t.id := by
    intro u
    have hnodup := hs.nodup
    rw [live, List.map_append, List.nodup_append] at hnodup
    show u ∈ s.taken.toList ++ timerListRemoveByNode s.timers t ↔ u ∈ s.taken.toList ++ s.timers ∧ _
    simp only [List.mem_append, mem_timerListRemoveByNode]
    constructor
    · rintro (htaken | hlist)
      · exact ⟨.inl htaken, fun hid => hnodup.2.2 u.id (List.mem_map_of_mem htaken) t.id
          (List.mem_map_of_mem ht) hid⟩
      · exact ⟨.inr hlist.1, hlist.2⟩
    · rintro ⟨htaken | hlist, hid⟩
      · exact .inl htaken
      · exact .inr ⟨hlist, hid⟩
  constructor
  · rintro ⟨u, hu, rfl⟩
    obtain ⟨hulive, hid⟩ := (hmem u).1 hu
    exact ⟨fun href => hid (hs.id_eq_of_ref_eq hulive htlive href), u, hulive, rfl⟩
  · rintro ⟨hne, u, hu, rfl⟩
    refine ⟨u, (hmem u).2 ⟨hu, fun hid => hne ?_⟩, rfl⟩
    rw [List.inj_on_of_nodup_map hs.nodup hu htlive hid]

/-! ### Runs without and with an expiry -/

theorem covered_new : (new C).Covered := fun _ h => absurd rfl h

theorem Covered.step {s s' : TimerState C} (hs : s.Sound) (h : s.Covered) {e : TimerEvent C}
    (hguard : s.NotExpiry e) (hstep : s.step e = some s') : s'.Covered := by
  intro r hr
  rcases step_refs hstep with ⟨ref, -, hreg, hlive⟩ | ⟨t, ht, rfl⟩ | ⟨hreg, hlive⟩ | ⟨t, hnot, -, -, -⟩
  · rcases (hreg r).1 hr with heq | hold
    · exact (hlive r).2 (.inl heq)
    · exact (hlive r).2 (.inr (h r hold))
  · have hne : r ≠ t.ref := by
      rintro rfl
      exact hr (Function.update_self _ _ _)
    rw [hs.exists_ref_removed_iff ht]
    exact ⟨hne, h r (by rwa [← Function.update_of_ne hne none s.registry])⟩
  · rw [hlive]
    exact h r (hreg ▸ hr)
  · exact absurd hguard hnot

theorem Leak.step {s s' : TimerState C} (hs : s.Sound) (h : s.Leak) {e : TimerEvent C}
    (hstep : s.step e = some s') : s'.Leak := by
  obtain ⟨r, hr, hnone⟩ := h
  have hnot : ¬ ∃ t ∈ s.live, t.ref = r := fun ⟨t, ht, href⟩ => hnone t ht href
  refine ⟨r, ?_, ?_⟩
  all_goals
    rcases step_refs hstep with ⟨ref, hfree, hreg, hlive⟩ | ⟨t, ht, rfl⟩ | ⟨hreg, hlive⟩ |
      ⟨t, -, -, hreg, hlive⟩
  · exact (hreg r).2 (.inr hr)
  · have hne : r ≠ t.ref := fun href => hnone t (mem_live_of_timers ht) href.symm
    show Function.update s.registry t.ref none r ≠ none
    rwa [Function.update_of_ne hne]
  · rwa [hreg]
  · rwa [hreg]
  · intro u hu href
    rcases (hlive r).1 ⟨u, hu, href⟩ with rfl | hold
    · exact hr hfree
    · exact hnot hold
  · intro u hu href
    exact hnot ((hs.exists_ref_removed_iff ht r).1 ⟨u, hu, href⟩).2
  · exact fun u hu href => hnot ((hlive r).1 ⟨u, hu, href⟩)
  · rw [hlive]
    exact fun u hu => hnone u (mem_live_of_timers hu)

/-- The end of a one-shot timer leaks its reference. -/
theorem leak_of_expiry {s s' : TimerState C} (hs : s.Sound) {e : TimerEvent C}
    (hexpiry : ¬ s.NotExpiry e) (hstep : s.step e = some s') : s'.Leak := by
  cases e with
  | callbackEnd =>
    simp only [NotExpiry, not_forall] at hexpiry
    obtain ⟨t, htaken, hforever⟩ := hexpiry
    have hlive : s.live = t :: s.timers := by rw [live, htaken]; rfl
    have ht : t ∈ s.live := by rw [hlive]; exact List.mem_cons_self ..
    rcases hcontrol : s.control with _ | now | ⟨now, u, called⟩
    all_goals simp only [taken, hcontrol, Option.some.injEq, reduceCtorEq] at htaken
    subst htaken
    simp only [TimerState.step, hcontrol, TimerState.callbackEnd, if_neg hforever,
      Option.some.injEq] at hstep
    subst hstep
    refine ⟨u.ref, ?_, ?_⟩
    · show s.registry u.ref ≠ none
      rw [hs.registered u ht]
      exact Option.some_ne_none _
    · intro v hv href
      have hnodup := hs.nodup
      rw [hlive, List.map_cons, List.nodup_cons] at hnodup
      have hid := hs.id_eq_of_ref_eq (mem_live_of_timers hv) ht href
      exact hnodup.1 (hid ▸ List.mem_map_of_mem hv)
  | newtimer | removetimer | runBegin | runTurn => exact absurd trivial hexpiry

theorem Leak.run {s s' : TimerState C} (hs : s.Sound) (h : s.Leak) {es : List (TimerEvent C)}
    (hrun : (timerMachine C).run s es = some s') : s'.Leak :=
  (Machine.invariant (M := timerMachine C) (I := fun u => u.Sound ∧ u.Leak)
    (fun _ _ _ hu hstep => ⟨hu.1.step hstep, hu.2.step hu.1 hstep⟩) ⟨hs, h⟩ hrun).2

/-- A run in which some one-shot timer ends has leaked a reference. -/
theorem leak_of_not_guarded {s s' : TimerState C} (hs : s.Sound) {es : List (TimerEvent C)}
    (hexpiry : ¬ (timerMachine C).Guarded NotExpiry s es)
    (hrun : (timerMachine C).run s es = some s') : s'.Leak := by
  induction es generalizing s with
  | nil => exact absurd trivial hexpiry
  | cons e es ih =>
    obtain ⟨t, hstep, hrest⟩ := Machine.run_cons_eq_some.1 hrun
    by_cases hguard : s.NotExpiry e
    · refine ih (hs.step hstep) ?_ hrest
      intro hlater
      refine hexpiry ⟨hguard, fun t' hstep' => ?_⟩
      rw [hstep, Option.some.injEq] at hstep'
      exact hstep' ▸ hlater
    · exact (leak_of_expiry hs hguard hstep).run (hs.step hstep) hrest

theorem called_of_run {s : TimerState C} {es : List (TimerEvent C)}
    (hrun : (timerMachine C).run (new C) es = some s) : s.Called :=
  (Machine.invariant (M := timerMachine C) (I := fun u => u.Sound ∧ u.Called)
    (fun _ _ _ hu hstep => ⟨hu.1.step hstep, hu.2.step hu.1 hstep⟩) ⟨sound_new, nofun⟩ hrun).2

/-- No two timers of the list carry the same reference. -/
theorem Sound.nodup_refs {s : TimerState C} (hs : s.Sound) : (s.timers.map Timer.ref).Nodup := by
  have hids : (s.timers.map Timer.id).Nodup :=
    hs.nodup.sublist ((List.sublist_append_right _ _).map _)
  refine List.Nodup.map_on ?_ hids.of_map
  intro t ht u hu href
  exact List.inj_on_of_nodup_map hs.nodup (mem_live_of_timers ht) (mem_live_of_timers hu)
    (hs.id_eq_of_ref_eq (mem_live_of_timers ht) (mem_live_of_timers hu) href)

/-- **Timer references.** In every state of every run in which no callback is executing, the references
held are those of the timers in the list, each timer having its own, if and only if no one-shot timer
has expired in the run so far. -/
theorem refs_accounted_iff {s : TimerState C} {es : List (TimerEvent C)}
    (hrun : (timerMachine C).run (new C) es = some s) (hquiet : ¬ s.CallbackExecuting) :
    s.Accounted ↔ (timerMachine C).Guarded NotExpiry (new C) es := by
  have hs := sound_of_run hrun
  have hlive : s.live = s.timers := by
    rcases hcontrol : s.control with _ | now | ⟨now, t, called⟩
    · rw [live, taken, hcontrol]; rfl
    · rw [live, taken, hcontrol]; rfl
    · obtain rfl := called_of_run hrun now t called hcontrol
      exact absurd ⟨now, t, hcontrol⟩ hquiet
  constructor
  · intro haccounted
    by_contra hexpiry
    obtain ⟨r, hr, hnone⟩ := leak_of_not_guarded sound_new hexpiry hrun
    obtain ⟨t, ht, href⟩ := (haccounted.held_iff r).1 hr
    exact hnone t (mem_live_of_timers ht) href
  · intro hguarded
    have hcovered : s.Covered :=
      (Machine.invariant_of_guarded (M := timerMachine C) (I := fun u => u.Sound ∧ u.Covered)
        (fun _ _ _ hu hguard hstep => ⟨hu.1.step hstep, hu.2.step hu.1 hguard hstep⟩)
        ⟨sound_new, covered_new⟩ hguarded hrun).2
    refine ⟨fun r => ⟨fun hr => hlive ▸ hcovered r hr, ?_⟩, hs.nodup_refs⟩
    rintro ⟨t, ht, rfl⟩
    rw [hs.registered t (mem_live_of_timers ht)]
    exact Option.some_ne_none _

/-- A forever timer fires at time 10, after another timer has been removed. -/
def firedAndRemoved : TimerState Unit :=
  ((timerMachine Unit).run (new Unit) [.newtimer 10 true () 0 1, .newtimer 5 false () 0 2,
    .removetimer 2, .runBegin 10, .runTurn, .callbackEnd, .runTurn]).getD (new Unit)

theorem refs_accounted_firedAndRemoved : firedAndRemoved.Accounted := by
  have hrun : (timerMachine Unit).run (new Unit) [.newtimer 10 true () 0 1, .newtimer 5 false () 0 2,
      .removetimer 2, .runBegin 10, .runTurn, .callbackEnd, .runTurn] = some firedAndRemoved := rfl
  refine (refs_accounted_iff hrun ?_).2 ?_
  · rintro ⟨now, t, hcontrol⟩
    cases hcontrol
  · refine ⟨trivial, fun _ h₁ => ⟨trivial, fun _ h₂ => ⟨trivial, fun _ h₃ => ⟨trivial, fun _ h₄ =>
      ⟨trivial, fun _ h₅ => ⟨?_, fun _ _ => ⟨trivial, fun _ _ => trivial⟩⟩⟩⟩⟩⟩⟩
    cases h₁; cases h₂; cases h₃; cases h₄; cases h₅
    rintro t ⟨rfl⟩
    rfl

/-- A one-shot timer fires: the list is empty and its reference is still held. -/
theorem refs_leak_of_one_shot : ∃ (es : List (TimerEvent Unit)) (s : TimerState Unit),
    (timerMachine Unit).run (new Unit) es = some s ∧ ¬ s.CallbackExecuting ∧ ¬ s.Accounted := by
  refine ⟨[.newtimer 10 false () 0 1, .runBegin 10, .runTurn, .callbackEnd], _, rfl, ?_, ?_⟩
  · rintro ⟨now, t, hcontrol⟩
    cases hcontrol
  · intro haccounted
    obtain ⟨t, ht, -⟩ := (haccounted.held_iff 1).1 nofun
    cases ht

end TimerState
end Slam
