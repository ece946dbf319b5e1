import Mathlib.Data.Fintype.Basic
import Mathlib.Tactic

/-!
# Edge-triggered polling

Files of a type `F` have conditions of a type `K` that hold or do not hold. A poll set watches some of them, and a file
is ready when it has something to report. A file becomes ready by an edge: a condition that is watched comes to hold, or
the file is registered while one holds. `wait` takes files off the ready ones, and what it does not take stays.

Nothing makes a file ready again while its condition goes on to hold. `Covers` is what a program keeps for that: every
condition that holds and is watched is about to be reported, or is one that the program has seen.
-/

/-- A set of watched files, edge-triggered. -/
structure EdgePoll (F K : Type*) where
  interest : F → Option (K → Bool)
  ready : F → Bool

namespace EdgePoll

variable {F K : Type*}

/-- Nothing is watched. -/
def empty : EdgePoll F K := ⟨fun _ => none, fun _ => false⟩

/-- The conditions of a file that are watched and hold. -/
def report (p : EdgePoll F K) (level : F → K → Bool) (f : F) (k : K) : Bool :=
  match p.interest f with
  | none => false
  | some ks => ks k && level f k

/-- Watch a file for these conditions, from now on. -/
def set [DecidableEq F] [Fintype K] (p : EdgePoll F K) (level : F → K → Bool) (f : F) (ks : K → Bool) : EdgePoll F K where
  interest := Function.update p.interest f (some ks)
  ready := Function.update p.ready f (p.ready f || decide (∃ k, ks k && level f k))

/-- Watch the file no longer. -/
def remove [DecidableEq F] (p : EdgePoll F K) (f : F) : EdgePoll F K where
  interest := Function.update p.interest f none
  ready := Function.update p.ready f false

/-- A condition of the file has come to hold. -/
def notify [DecidableEq F] (p : EdgePoll F K) (f : F) (k : K) : EdgePoll F K :=
  match p.interest f with
  | none => p
  | some ks => { p with ready := Function.update p.ready f (p.ready f || ks k) }

/-- Some of the ready files have been reported. -/
def wait [DecidableEq F] (p : EdgePoll F K) (fs : List F) : EdgePoll F K :=
  { p with ready := fun f => p.ready f && decide (f ∉ fs) }

/-- A condition holds, or holds no longer. -/
def setLevel [DecidableEq F] [DecidableEq K] (level : F → K → Bool) (f : F) (k : K) (b : Bool) : F → K → Bool :=
  Function.update level f (Function.update (level f) k b)

/-- Everything that is watched and holds is about to be reported, or has been seen. -/
def Covers (p : EdgePoll F K) (level : F → K → Bool) (seen : F → K → Prop) : Prop :=
  ∀ f k, p.report level f k → p.ready f ∨ seen f k

variable {p : EdgePoll F K} {level : F → K → Bool} {seen seen' : F → K → Prop} {f f' : F} {k k' : K} {ks : K → Bool}

theorem report_iff : p.report level f k ↔ ∃ ks, p.interest f = some ks ∧ ks k ∧ level f k := by
  unfold report
  cases p.interest f with
  | none => simp
  | some ks => simp

theorem report_eq_false (h : p.interest f = none) (k : K) : p.report level f k = false := by
  rw [report, h]

section Update

variable [DecidableEq F]

@[simp] theorem set_interest_self [Fintype K] : (p.set level f ks).interest f = some ks := Function.update_self ..

@[simp] theorem set_interest_of_ne [Fintype K] (h : f' ≠ f) : (p.set level f ks).interest f' = p.interest f' :=
  Function.update_of_ne h ..

@[simp] theorem set_ready_of_ne [Fintype K] (h : f' ≠ f) : (p.set level f ks).ready f' = p.ready f' := Function.update_of_ne h ..

theorem set_ready_self [Fintype K] : (p.set level f ks).ready f = (p.ready f || decide (∃ k, ks k && level f k)) :=
  Function.update_self ..

/-- A registration reports what holds at once. -/
theorem ready_set [Fintype K] (hks : ks k = true) (hlevel : level f k = true) : (p.set level f ks).ready f = true := by
  have h : ∃ k, (ks k && level f k) = true := ⟨k, by rw [hks, hlevel]; rfl⟩
  rw [set_ready_self, decide_eq_true h, Bool.or_true]

@[simp] theorem remove_interest_self : (p.remove f).interest f = none := Function.update_self ..

@[simp] theorem remove_interest_of_ne (h : f' ≠ f) : (p.remove f).interest f' = p.interest f' := Function.update_of_ne h ..

@[simp] theorem remove_ready_of_ne (h : f' ≠ f) : (p.remove f).ready f' = p.ready f' := Function.update_of_ne h ..

@[simp] theorem notify_interest : (p.notify f k).interest = p.interest := by
  unfold notify
  cases p.interest f <;> rfl

theorem notify_ready (h : p.interest f = some ks) :
    (p.notify f k).ready = Function.update p.ready f (p.ready f || ks k) := by
  rw [notify, h]

/-- Nothing ready is forgotten. -/
theorem ready_notify (f : F) (k : K) (h : p.ready f' = true) : (p.notify f k).ready f' = true := by
  cases hinterest : p.interest f with
  | none => rwa [notify, hinterest]
  | some ks =>
    rw [notify_ready hinterest]
    by_cases heq : f' = f
    · rw [heq, Function.update_self, ← heq, h, Bool.true_or]
    · rw [Function.update_of_ne heq, h]

theorem ready_notify_self (hinterest : p.interest f = some ks) (hk : ks k = true) : (p.notify f k).ready f = true := by
  rw [notify_ready hinterest, Function.update_self, hk, Bool.or_true]

@[simp] theorem wait_interest (fs : List F) : (p.wait fs).interest = p.interest := rfl

theorem wait_ready_of_notMem {fs : List F} (h : f ∉ fs) : (p.wait fs).ready f = p.ready f := by
  simp [wait, h]

@[simp] theorem wait_report (fs : List F) : (p.wait fs).report level = p.report level := rfl

@[simp] theorem notify_report (f : F) (k : K) : (p.notify f k).report level = p.report level := by
  funext f' k'
  rw [report, report, notify_interest]

end Update

section SetLevel

variable [DecidableEq F] [DecidableEq K] {b : Bool}

@[simp] theorem setLevel_self : setLevel level f k b f k = b := by
  rw [setLevel, Function.update_self, Function.update_self]

theorem setLevel_of_ne (h : ¬ (f' = f ∧ k' = k)) : setLevel level f k b f' k' = level f' k' := by
  rw [setLevel]
  by_cases hf : f' = f
  · subst hf
    rw [Function.update_self, Function.update_of_ne fun hk => h ⟨rfl, hk⟩]
  · rw [Function.update_of_ne hf]

/-- A condition that ends ends no other one. -/
theorem level_of_setLevel_false (h : setLevel level f k false f' k' = true) : level f' k' = true ∧ ¬ (f' = f ∧ k' = k) := by
  have hne : ¬ (f' = f ∧ k' = k) := by
    rintro ⟨rfl, rfl⟩
    rw [setLevel_self] at h
    cases h
  rw [setLevel_of_ne hne] at h
  exact ⟨h, hne⟩

end SetLevel

/-! ### What a program keeps -/

theorem covers_empty : (empty : EdgePoll F K).Covers level seen := by
  intro f k hreport
  obtain ⟨ks, hks, -⟩ := report_iff.1 hreport
  cases hks

/-- Conditions may end, and what has been seen may change for those that still hold. -/
theorem Covers.lower {level' : F → K → Bool} (h : p.Covers level seen) (hlevel : ∀ f k, level' f k = true → level f k = true)
    (hseen : ∀ f k, p.report level' f k → seen f k → seen' f k) : p.Covers level' seen' := by
  intro f k hreport
  obtain ⟨ks, hks, hk, hholds⟩ := report_iff.1 hreport
  exact (h f k (report_iff.2 ⟨ks, hks, hk, hlevel f k hholds⟩)).imp_right (hseen f k hreport)

theorem Covers.mono (h : p.Covers level seen) (hseen : ∀ f k, p.report level f k → seen f k → seen' f k) :
    p.Covers level seen' :=
  h.lower (fun _ _ => id) hseen

section Rules

variable [DecidableEq F]

/-- After a registration of a new file, nothing about it has to have been seen. -/
theorem Covers.set_level [Fintype K] {level' : F → K → Bool} (h : p.Covers level seen) (hlevel : ∀ f', f' ≠ f → level' f' = level f')
    (hseen : ∀ f' k, f' ≠ f → seen f' k → seen' f' k) : (p.set level' f ks).Covers level' seen' := by
  intro f' k hreport
  obtain ⟨ks', hks', hk, hholds⟩ := report_iff.1 hreport
  by_cases heq : f' = f
  · subst heq
    rw [set_interest_self, Option.some_inj] at hks'
    subst hks'
    exact .inl (ready_set hk hholds)
  · rw [set_interest_of_ne heq] at hks'
    rw [set_ready_of_ne heq]
    rw [hlevel f' heq] at hholds
    exact (h f' k (report_iff.2 ⟨ks', hks', hk, hholds⟩)).imp_right (hseen f' k heq)

/-- After a registration of the file, nothing about it has to have been seen. -/
theorem Covers.set [Fintype K] (h : p.Covers level seen) (hseen : ∀ f' k, f' ≠ f → seen f' k → seen' f' k) :
    (p.set level f ks).Covers level seen' :=
  h.set_level (fun _ _ => rfl) hseen

theorem Covers.remove (h : p.Covers level seen) (hseen : ∀ f' k, f' ≠ f → seen f' k → seen' f' k) :
    (p.remove f).Covers level seen' := by
  intro f' k hreport
  obtain ⟨ks, hks, hk, hlevel⟩ := report_iff.1 hreport
  have heq : f' ≠ f := by
    rintro rfl
    rw [remove_interest_self] at hks
    cases hks
  rw [remove_interest_of_ne heq] at hks
  rw [remove_ready_of_ne heq]
  exact (h f' k (report_iff.2 ⟨ks, hks, hk, hlevel⟩)).imp_right (hseen f' k heq)

/-- What `wait` reports has to be seen from then on. -/
theorem Covers.wait (h : p.Covers level seen) {fs : List F}
    (hseen : ∀ f k, p.report level f k → f ∈ fs ∨ seen f k → seen' f k) : (p.wait fs).Covers level seen' := by
  intro f k hreport
  rw [wait_report] at hreport
  by_cases hmem : f ∈ fs
  · exact .inr (hseen f k hreport (.inl hmem))
  · rw [wait_ready_of_notMem hmem]
    exact (h f k hreport).imp_right fun hk => hseen f k hreport (.inr hk)

variable [DecidableEq K]

/-- A condition comes to hold: there is an edge, or it held before. -/
theorem Covers.rise (h : p.Covers level seen) (again : Bool) :
    (if level f k && !again then p else p.notify f k).Covers (setLevel level f k true) seen := by
  intro f' k' hreport
  by_cases hheld : (level f k && !again) = true
  · rw [if_pos hheld] at hreport ⊢
    have hsame : setLevel level f k true = level := by
      funext f' k'
      by_cases heq : f' = f ∧ k' = k
      · obtain ⟨rfl, rfl⟩ := heq
        rw [setLevel_self, (Bool.and_eq_true_iff.1 hheld).1]
      · exact setLevel_of_ne heq
    rw [hsame] at hreport
    exact h f' k' hreport
  · rw [if_neg hheld] at hreport ⊢
    obtain ⟨ks, hks, hk, hlevel⟩ := report_iff.1 hreport
    rw [notify_interest] at hks
    by_cases heq : f' = f ∧ k' = k
    · obtain ⟨rfl, rfl⟩ := heq
      exact .inl (ready_notify_self hks hk)
    · rw [setLevel_of_ne heq] at hlevel
      exact (h f' k' (report_iff.2 ⟨ks, hks, hk, hlevel⟩)).imp_left (ready_notify f k)

end Rules

end EdgePoll
