import Mathlib.Data.Option.Basic
import Mathlib.Data.Option.Defs
import Mathlib.Tactic

/-!
# Two runs of one program

A program over a state may fail. `Alike R` says that its runs from two states related by `R` do the same as far
as anybody can see: both fail, or both return, with the same value and with states related by `R` again. So
what `R` leaves open between two states does not show in what the program returns. It is closed under the
constructs of a program, loops included.
-/

namespace TwoRuns

variable {σ α β : Type}

/-- Both fail, or both return the same value in related states. -/
def Same (R : σ → σ → Prop) : Option (α × σ) → Option (α × σ) → Prop
  | some (a, s), some (b, t) => a = b ∧ R s t
  | none, none => True
  | _, _ => False

/-- From related states the runs are the same. -/
def Alike (R : σ → σ → Prop) (x : StateT σ Option α) : Prop := ∀ s t, R s t → Same R (x s) (x t)

/-- What a program returns, nothing if it fails. -/
def value (x : StateT σ Option α) (s : σ) : Option α := (x s).map Prod.fst

variable {R : σ → σ → Prop}

theorem Same.mono {R' : σ → σ → Prop} (hle : ∀ s t, R s t → R' s t) {p q : Option (α × σ)} (h : Same R p q) :
    Same R' p q := by
  unfold Same at h ⊢
  split at h
  · exact ⟨h.1, hle _ _ h.2⟩
  · trivial
  · exact h.elim

theorem alike_pure (a : α) : Alike R (pure a : StateT σ Option α) := fun _ _ h => ⟨rfl, h⟩

theorem alike_failure : Alike R (failure : StateT σ Option α) := fun _ _ _ => trivial

theorem Alike.bind {x : StateT σ Option α} {f : α → StateT σ Option β} (hx : Alike R x) (hf : ∀ a, Alike R (f a)) :
    Alike R (x >>= f) := by
  intro s t hst
  have hfirst := hx s t hst
  show Same R ((x s).bind fun p => f p.1 p.2) ((x t).bind fun p => f p.1 p.2)
  cases hs : x s with
  | none =>
    cases ht : x t with
    | none => trivial
    | some q => rw [hs, ht] at hfirst; exact hfirst.elim
  | some p =>
    cases ht : x t with
    | none => rw [hs, ht] at hfirst; exact hfirst.elim
    | some q =>
      rw [hs, ht] at hfirst
      obtain ⟨hvalue, hstate⟩ := hfirst
      show Same R (f p.1 p.2) (f q.1 q.2)
      rw [← hvalue]
      exact hf p.1 p.2 q.2 hstate

theorem Alike.map {x : StateT σ Option α} (hx : Alike R x) (f : α → β) : Alike R (f <$> x) := by
  have hbind := hx.bind fun a => alike_pure (R := R) (f a)
  rwa [bind_pure_comp] at hbind

theorem Alike.ite {c : Prop} [Decidable c] {x y : StateT σ Option α} (hx : Alike R x) (hy : Alike R y) :
    Alike R (if c then x else y) := by
  split_ifs
  · exact hx
  · exact hy

theorem Alike.foldlM {xs : List β} {f : α → β → StateT σ Option α} (hf : ∀ a, ∀ b ∈ xs, Alike R (f a b)) (a : α) :
    Alike R (xs.foldlM f a) := by
  induction xs generalizing a with
  | nil => exact alike_pure a
  | cons b xs ih =>
    rw [List.foldlM_cons]
    exact (hf a b List.mem_cons_self).bind fun a' => ih (fun a c hc => hf a c (List.mem_cons_of_mem b hc)) a'

theorem Alike.mapM {xs : List β} {f : β → StateT σ Option α} (hf : ∀ b ∈ xs, Alike R (f b)) :
    Alike R (xs.mapM f) := by
  induction xs with
  | nil => exact alike_pure []
  | cons b xs ih =>
    rw [List.mapM_cons]
    refine (hf b List.mem_cons_self).bind fun a => ?_
    exact (ih fun c hc => hf c (List.mem_cons_of_mem b hc)).bind fun as => alike_pure (a :: as)

/-- **Runs that are alike return the same.** -/
theorem Alike.value_eq {x : StateT σ Option α} (hx : Alike R x) {s t : σ} (hst : R s t) : value x s = value x t := by
  have hsame := hx s t hst
  unfold value
  cases hs : x s with
  | none =>
    cases ht : x t with
    | none => rfl
    | some q => rw [hs, ht] at hsame; exact hsame.elim
  | some p =>
    cases ht : x t with
    | none => rw [hs, ht] at hsame; exact hsame.elim
    | some q =>
      rw [hs, ht] at hsame
      exact congrArg some hsame.1

end TwoRuns
