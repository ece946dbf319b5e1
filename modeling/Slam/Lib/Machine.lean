import Mathlib.Data.List.Basic

/-!
# Labelled transition machines

A machine is a partial step function on states, driven by events. An event names everything the
environment decides, so a run is the list of its events. `invariant_of_guarded` is the induction
rule used throughout: an invariant that holds initially and survives every step taken under a
guard holds at the end of every run all of whose steps meet the guard.
-/

/-- A partial step function driven by events. -/
structure Machine (σ ε : Type*) where
  step : σ → ε → Option σ

namespace Machine

variable {σ ε : Type*}

/-- The state after a list of events; `none` once an event cannot happen. -/
def run (M : Machine σ ε) : σ → List ε → Option σ
  | s, [] => some s
  | s, e :: es => (M.step s e).bind fun s' => M.run s' es

/-- Every step of the run from `s` along the events meets the guard `G`. -/
def Guarded (M : Machine σ ε) (G : σ → ε → Prop) : σ → List ε → Prop
  | _, [] => True
  | s, e :: es => G s e ∧ ∀ s', M.step s e = some s' → M.Guarded G s' es

theorem guarded_congr {M : Machine σ ε} {G G' : σ → ε → Prop} (h : ∀ s e, G s e ↔ G' s e) {s : σ}
    {es : List ε} : M.Guarded G s es ↔ M.Guarded G' s es := by
  induction es generalizing s with
  | nil => exact Iff.rfl
  | cons e es ih =>
    exact and_congr (h s e) (forall_congr' fun s' => imp_congr_right fun _ => ih)

theorem guarded_of_forall {M : Machine σ ε} {G : σ → ε → Prop} (h : ∀ s e, G s e) {s : σ} {es : List ε} :
    M.Guarded G s es := by
  induction es generalizing s with
  | nil => exact trivial
  | cons e es ih => exact ⟨h s e, fun _ _ => ih⟩

/-- A guard that can be checked can be checked along a run. -/
instance decidableGuarded (M : Machine σ ε) (G : σ → ε → Prop) [∀ s e, Decidable (G s e)] :
    ∀ s es, Decidable (M.Guarded G s es)
  | _, [] => isTrue trivial
  | s, e :: es =>
    match h : M.step s e with
    | none => decidable_of_iff (G s e) ⟨fun hG => ⟨hG, by simp [h]⟩, fun hG => hG.1⟩
    | some s' =>
      have := decidableGuarded M G s' es
      decidable_of_iff (G s e ∧ M.Guarded G s' es)
        ⟨fun hG => ⟨hG.1, by simpa [h] using hG.2⟩, fun hG => ⟨hG.1, hG.2 s' h⟩⟩

@[simp] theorem run_nil (M : Machine σ ε) (s : σ) : M.run s [] = some s := rfl

theorem run_cons (M : Machine σ ε) (s : σ) (e : ε) (es : List ε) :
    M.run s (e :: es) = (M.step s e).bind fun s' => M.run s' es := rfl

/-- What a run along `e :: es` consists of. -/
theorem run_cons_eq_some {M : Machine σ ε} {s s' : σ} {e : ε} {es : List ε} :
    M.run s (e :: es) = some s' ↔ ∃ t, M.step s e = some t ∧ M.run t es = some s' := by
  rw [run_cons, Option.bind_eq_some_iff]

theorem run_append (M : Machine σ ε) (s : σ) (es fs : List ε) :
    M.run s (es ++ fs) = (M.run s es).bind fun t => M.run t fs := by
  induction es generalizing s with
  | nil => rfl
  | cons e es ih =>
    rw [List.cons_append, run_cons, run_cons, Option.bind_assoc]
    exact Option.bind_congr fun t _ => ih t

/-- **The invariant rule.** -/
theorem invariant_of_guarded {M : Machine σ ε} {G : σ → ε → Prop} {I : σ → Prop}
    (hstep : ∀ s e s', I s → G s e → M.step s e = some s' → I s') :
    ∀ {s s' : σ} {es : List ε}, I s → M.Guarded G s es → M.run s es = some s' → I s' := by
  intro s s' es
  induction es generalizing s with
  | nil =>
    intro hI _ hrun
    cases hrun
    exact hI
  | cons e es ih =>
    intro hI hG hrun
    obtain ⟨t, ht, hrest⟩ := run_cons_eq_some.1 hrun
    exact ih (hstep s e t hI hG.1 ht) (hG.2 t ht) hrest

/-- The invariant rule with progress: if the guard and the invariant let every step be taken, a run
that meets the guard does not get stuck. -/
theorem run_of_guarded {M : Machine σ ε} {G : σ → ε → Prop} {I : σ → Prop}
    (hstep : ∀ s e, I s → G s e → ∃ s', M.step s e = some s' ∧ I s') :
    ∀ {s : σ} {es : List ε}, I s → M.Guarded G s es → ∃ s', M.run s es = some s' ∧ I s' := by
  intro s es
  induction es generalizing s with
  | nil => exact fun hI _ => ⟨s, rfl, hI⟩
  | cons e es ih =>
    intro hI hG
    obtain ⟨t, ht, hIt⟩ := hstep s e hI hG.1
    obtain ⟨s', hrun, hIs'⟩ := ih hIt (hG.2 t ht)
    exact ⟨s', run_cons_eq_some.2 ⟨t, ht, hrun⟩, hIs'⟩

/-- The invariant rule without a guard. -/
theorem invariant {M : Machine σ ε} {I : σ → Prop}
    (hstep : ∀ s e s', I s → M.step s e = some s' → I s') {s s' : σ} {es : List ε}
    (hI : I s) (hrun : M.run s es = some s') : I s' := by
  induction es generalizing s with
  | nil => cases hrun; exact hI
  | cons e es ih =>
    obtain ⟨t, ht, hrest⟩ := run_cons_eq_some.1 hrun
    exact ih (hstep s e t hI ht) hrest

/-- Where a run that is not stuck ends, as a value. -/
theorem run_eq_getD {M : Machine σ ε} {s : σ} {es : List ε} (h : (M.run s es).isSome) (d : σ) :
    M.run s es = some ((M.run s es).getD d) := by
  obtain ⟨t, ht⟩ := Option.isSome_iff_exists.1 h
  rw [ht, Option.getD_some]

/-! ### What a run leaves behind -/

section Notes

variable {γ : Type*}

/-- What the steps of a run write down, in order. -/
def notes (M : Machine σ ε) (note : σ → ε → σ → List γ) : σ → List ε → List γ
  | _, [] => []
  | s, e :: es =>
    match M.step s e with
    | none => []
    | some s' => note s e s' ++ M.notes note s' es

theorem notes_cons {M : Machine σ ε} {note : σ → ε → σ → List γ} {s t : σ} {e : ε} {es : List ε}
    (h : M.step s e = some t) : M.notes note s (e :: es) = note s e t ++ M.notes note t es := by
  simp only [notes, h]

/-- Everything that is written down is written down by a step. -/
theorem mem_notes {M : Machine σ ε} {note : σ → ε → σ → List γ} {s : σ} {es : List ε} {x : γ}
    (h : x ∈ M.notes note s es) : ∃ e ∈ es, ∃ t t', M.step t e = some t' ∧ x ∈ note t e t' := by
  induction es generalizing s with
  | nil => simp [notes] at h
  | cons e es ih =>
    cases hstep : M.step s e with
    | none => simp [notes, hstep] at h
    | some t =>
      rw [notes_cons hstep, List.mem_append] at h
      rcases h with h | h
      · exact ⟨e, List.mem_cons_self .., s, t, hstep, h⟩
      · obtain ⟨e', he', hnote⟩ := ih h
        exact ⟨e', List.mem_cons_of_mem _ he', hnote⟩

/-- The invariant rule with what has been written down so far. -/
theorem invariant_notes {M : Machine σ ε} {note : σ → ε → σ → List γ} {I : σ → List γ → Prop}
    (hstep : ∀ s h e s', I s h → M.step s e = some s' → I s' (h ++ note s e s')) {s s' : σ}
    {es : List ε} {h : List γ} (hI : I s h) (hrun : M.run s es = some s') :
    I s' (h ++ M.notes note s es) := by
  induction es generalizing s h with
  | nil =>
    cases hrun
    simpa [notes] using hI
  | cons e es ih =>
    obtain ⟨t, ht, hrest⟩ := run_cons_eq_some.1 hrun
    rw [notes_cons ht, ← List.append_assoc]
    exact ih (hstep s h e t hI ht) hrest

end Notes

end Machine
