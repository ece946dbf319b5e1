import Slam.Astar.HeapStack
import Slam.Lib.Machine
import Mathlib.Data.List.Infix

/-!
# `tools/astar.lua`: the heap as a priority queue

`intoHeap` and `exitHeap` are called in any order on a heap that is empty at first. What has been put in is
either still held or has been taken out, each element once, whatever the order of the elements in the
array (`Accounted`). The front of the array is what comes out next, so it has to be a least element
(`FrontLeast`). `intoHeap` keeps it so. `exitHeap` moves one of the others to the front, and whether that
is a least one depends on where the others stand (`RaisesLeast`):

* of three elements the last one moves to the front, though it may be larger than the one in between;
* of more the left child moves up if it is smaller than the last one, even if the right child is smaller still.
-/

namespace Slam.Astar

variable {α β : Type} [LinearOrder β] (f : α → β)

/-- A call. -/
inductive HeapCall (α : Type) where
  | intoHeap (newPoint : α)
  | exitHeap

/-- The heap, and what has been put in and taken out so far. -/
structure Served (α : Type) where
  heapStack : List α
  put : List α
  taken : List α

namespace Served

/-- `heapStack` before the first call. -/
def empty : Served α := ⟨[], [], []⟩

/-- One call. -/
def call (s : Served α) : HeapCall α → Served α
  | .intoHeap newPoint => { s with heapStack := Astar.intoHeap f s.heapStack newPoint, put := newPoint :: s.put }
  | .exitHeap =>
    match Astar.exitHeap f s.heapStack with
    | none => s
    | some (a, rest) => { s with heapStack := rest, taken := a :: s.taken }

end Served

/-- The machine of the calls. -/
def heapMachine : Machine (Served α) (HeapCall α) where
  step s c := some (s.call f c)

/-- `exitHeap` would answer nil exactly if all has been taken out, and what is held is what was put in and
has not been taken out. -/
structure Accounted (s : Served α) : Prop where
  nil_iff : exitHeap f s.heapStack = none ↔ s.taken.length = s.put.length
  held : (s.taken ++ s.heapStack).Perm s.put

/-- What `exitHeap` would answer is a least one of those held. -/
def AnswersLeast (s : Served α) : Prop :=
  ∀ a rest, exitHeap f s.heapStack = some (a, rest) → ∀ b ∈ s.heapStack, f a ≤ f b

/-- The front of the array is a least element. -/
def FrontLeast (h : List α) : Prop := ∀ a ∈ h.head?, ∀ b ∈ h, f a ≤ f b

/-- What `exitHeap` moves to the front is a least one of those that are left. -/
def RaisesLeast : List α → Prop
  | _ :: pl :: pr :: x :: rest =>
    let e := rest.getLastD x
    if f pl < f e then ∀ b ∈ pl :: pr :: x :: rest, f pl ≤ f b
    else if f pr < f e then ∀ b ∈ pl :: pr :: x :: rest, f pr ≤ f b
    else ∀ b ∈ pl :: pr :: x :: rest, f e ≤ f b
  | [_, p, e] => f e ≤ f p
  | _ => True

/-- The condition on a call: only `exitHeap` can go wrong. -/
def CallKeepsLeast (s : Served α) : HeapCall α → Prop
  | .intoHeap _ => True
  | .exitHeap => RaisesLeast f s.heapStack

variable {f}

/-! ### What is held -/

theorem accounted_empty : Accounted f (Served.empty : Served α) where
  nil_iff := iff_of_true rfl rfl
  held := .nil

/-- The second part of the account gives the first. -/
theorem accounted_of_held {s : Served α} (held : (s.taken ++ s.heapStack).Perm s.put) : Accounted f s := by
  refine ⟨?_, held⟩
  have hlength := held.length_eq
  rw [List.length_append] at hlength
  rw [exitHeap_eq_none, ← List.length_eq_zero_iff]
  omega

theorem Accounted.call {s : Served α} (hs : Accounted f s) (c : HeapCall α) : Accounted f (s.call f c) := by
  cases c with
  | intoHeap newPoint =>
    refine accounted_of_held ?_
    have hperm := (intoHeap_perm (f := f) s.heapStack newPoint).append_left s.taken
    exact hperm.trans (List.perm_middle.trans (hs.held.cons newPoint))
  | exitHeap =>
    unfold Served.call
    cases hexit : exitHeap f s.heapStack with
    | none => exact hs
    | some out =>
      obtain ⟨a, rest⟩ := out
      refine accounted_of_held ?_
      have hperm := (exitHeap_perm hexit).append_left s.taken
      exact List.perm_middle.symm.trans (hperm.trans hs.held)

/-! ### What stands in front -/

theorem answersLeast_iff {s : Served α} : AnswersLeast f s ↔ FrontLeast f s.heapStack := by
  unfold AnswersLeast FrontLeast
  cases s.heapStack with
  | nil => simp [exitHeap]
  | cons ret rest => simp [exitHeap]

/-- `siftDown` leaves alone what lies before its place. -/
theorem siftDown_getElem? (turns : ℕ) (h : List α) {i endpoint : ℕ} (hi : i < endpoint) :
    (siftDown f turns h endpoint)[i]? = h[i]? := by
  induction turns generalizing h endpoint with
  | zero => rfl
  | succ turns ih =>
    have hswap : ∀ (j : ℕ) (a b : α), i < j → (swap h endpoint j a b)[i]? = h[i]? := by
      intro j a b hj
      unfold swap
      rw [List.getElem?_set_ne (by omega), List.getElem?_set_ne (by omega)]
    rw [siftDown]
    split_ifs
    · split
      · split_ifs
        · rw [ih _ (by omega), hswap _ _ _ (by omega)]
        · rw [ih _ (by omega), hswap _ _ _ (by omega)]
        · rfl
      · rfl
    · rfl

/-- What `siftDown` brings to the front of three or more. -/
theorem head?_siftDown (turns : ℕ) (e pl pr : α) (rest : List α) :
    (siftDown f (turns + 1) (e :: pl :: pr :: rest) 0).head?
      = some (if f pl < f e then pl else if f pr < f e then pr else e) := by
  have hlong : 0 * 2 + 2 < (e :: pl :: pr :: rest).length := by
    simp only [List.length_cons]
    omega
  rw [List.head?_eq_getElem?, siftDown, if_pos hlong]
  simp only [List.getElem?_cons_zero, List.getElem?_cons_succ, zero_mul, zero_add]
  split_ifs
  · rw [siftDown_getElem? _ _ (by omega)]
    rfl
  · rw [siftDown_getElem? _ _ (by omega)]
    rfl
  · rfl

/-- **After `exitHeap` a least element is in front exactly if it has moved one there.** -/
theorem frontLeast_exitHeap_iff {h rest : List α} {a : α} (hexit : exitHeap f h = some (a, rest)) :
    FrontLeast f rest ↔ RaisesLeast f h := by
  have hperm := exitHeap_perm hexit
  match h, hexit with
  | [_], hexit =>
    cases hexit
    simp [FrontLeast, RaisesLeast, siftDown]
  | [_, p], hexit =>
    cases hexit
    simp [FrontLeast, RaisesLeast, siftDown]
  | [_, p, e], hexit =>
    cases hexit
    simp [FrontLeast, RaisesLeast, siftDown]
  | ret :: pl :: pr :: x :: tail, hexit =>
    -- the last element has gone to the front, and what is left is a permutation of the tail
    have hhead : rest.head? = some (if f pl < f (tail.getLastD x) then pl
        else if f pr < f (tail.getLastD x) then pr else tail.getLastD x) := by
      cases hexit
      simp only [List.getLastD_cons]
      exact head?_siftDown _ _ pl pr _
    have hmem : ∀ b, b ∈ rest ↔ b ∈ pl :: pr :: x :: tail := by
      intro b
      cases hexit
      exact (List.Perm.cons_inv hperm).mem_iff
    simp only [FrontLeast, hhead, Option.mem_some_iff, forall_eq', RaisesLeast, hmem]
    split_ifs <;> rfl

/-- `siftUp` does not move a least element away from the front. -/
theorem FrontLeast.siftUp {h : List α} (hleast : FrontLeast f h) (turns endpoint : ℕ) :
    FrontLeast f (siftUp f turns h endpoint) := by
  induction turns generalizing h endpoint with
  | zero => exact hleast
  | succ turns ih =>
    rw [Astar.siftUp]
    split_ifs with hfront
    · exact hleast
    · split
      · rename_i e p he hp
        split_ifs with hless
        · refine ih ?_ _
          have hperm := swap_perm he hp
          -- nothing is less than the front, so it is not the parent that changes places
          have hparent : endpoint / 2 ≠ 0 := by
            intro hzero
            rw [hzero, ← List.head?_eq_getElem?] at hp
            exact absurd (hleast p hp e (List.mem_of_getElem? he)) (not_le.2 hless)
          have hhead : (swap h endpoint (endpoint / 2) e p).head? = h.head? := by
            unfold swap
            rw [List.head?_eq_getElem?, List.head?_eq_getElem?, List.getElem?_set_ne (by omega),
              List.getElem?_set_ne (by omega)]
          intro a ha b hb
          exact hleast a (hhead ▸ ha) b (hperm.mem_iff.1 hb)
        · exact hleast
      · exact hleast

/-- `siftUp` brings an element to the front that is less than all others. -/
theorem head?_siftUp {turns : ℕ} {h : List α} {endpoint : ℕ} {newPoint : α} (hturns : endpoint ≤ turns)
    (hnew : h[endpoint]? = some newPoint) (hless : ∀ i b, i ≠ endpoint → h[i]? = some b → f newPoint < f b) :
    (siftUp f turns h endpoint).head? = some newPoint := by
  induction turns generalizing h endpoint with
  | zero =>
    obtain rfl : endpoint = 0 := by omega
    rw [siftUp, List.head?_eq_getElem?, hnew]
  | succ turns ih =>
    rw [siftUp]
    split_ifs with hfront
    · rw [hfront] at hnew
      rw [List.head?_eq_getElem?, hnew]
    · have hlong : endpoint < h.length := (List.getElem?_eq_some_iff.1 hnew).1
      have hparent : h[endpoint / 2]? = some h[endpoint / 2] := List.getElem?_eq_getElem (by omega)
      have hlt := hless _ _ (by omega) hparent
      rw [hnew, hparent]
      dsimp only
      rw [if_pos hlt]
      refine ih (by omega) ?_ ?_
      · unfold swap
        rw [List.getElem?_set_self (by rw [List.length_set]; omega)]
      · intro i b hi hb
        unfold swap at hb
        rw [List.getElem?_set_ne (Ne.symm hi)] at hb
        by_cases hplace : i = endpoint
        · rw [hplace, List.getElem?_set_self hlong] at hb
          cases hb
          exact hlt
        · rw [List.getElem?_set_ne (Ne.symm hplace)] at hb
          exact hless i b hplace hb

/-- **`intoHeap` keeps a least element in front.** -/
theorem FrontLeast.intoHeap {h : List α} (hleast : FrontLeast f h) (newPoint : α) :
    FrontLeast f (intoHeap f h newPoint) := by
  have hmem : ∀ b, b ∈ Astar.intoHeap f h newPoint ↔ b = newPoint ∨ b ∈ h := by
    intro b
    rw [(intoHeap_perm h newPoint).mem_iff, List.mem_cons]
  have hnew : (h ++ [newPoint])[h.length]? = some newPoint := by simp
  by_cases hless : ∀ b ∈ h, f newPoint < f b
  · have hhead : (Astar.intoHeap f h newPoint).head? = some newPoint := by
      refine head?_siftUp (le_refl _) hnew fun i b hi hb => hless b ?_
      rcases List.mem_append.1 (List.mem_of_getElem? hb) with hb' | hb'
      · exact hb'
      · have hlt : i < (h ++ [newPoint]).length := (List.getElem?_eq_some_iff.1 hb).1
        rw [List.length_append, List.length_singleton] at hlt
        rw [List.getElem?_append_left (by omega)] at hb
        exact List.mem_of_getElem? hb
    intro a ha b hb
    rw [hhead] at ha
    cases ha
    rcases (hmem b).1 hb with rfl | hb
    · exact le_refl _
    · exact (hless b hb).le
  · -- something is no larger than the new element, so the front is not
    obtain ⟨b, hb, hle⟩ : ∃ b ∈ h, f b ≤ f newPoint := by
      push Not at hless
      exact hless
    refine FrontLeast.siftUp ?_ _ _
    intro a ha c hc
    have ha' : a ∈ h.head? := by
      cases h with
      | nil => cases hb
      | cons ret rest => exact ha
    rcases List.mem_append.1 hc with hc | hc
    · exact hleast a ha' c hc
    · rw [List.mem_singleton.1 hc]
      exact (hleast a ha' b hb).trans hle

/-! ### Runs -/

theorem frontLeast_empty : FrontLeast f (Served.empty : Served α).heapStack := by
  intro a ha
  cases ha

/-- **A call leaves a least element in front exactly if it meets the condition.** -/
theorem frontLeast_call_iff {s : Served α} (hs : FrontLeast f s.heapStack) (c : HeapCall α) :
    FrontLeast f (s.call f c).heapStack ↔ CallKeepsLeast f s c := by
  cases c with
  | intoHeap newPoint => exact iff_of_true (hs.intoHeap newPoint) trivial
  | exitHeap =>
    unfold Served.call CallKeepsLeast
    cases hexit : exitHeap f s.heapStack with
    | none =>
      rw [exitHeap_eq_none.1 hexit]
      exact iff_of_true frontLeast_empty trivial
    | some out => exact frontLeast_exitHeap_iff hexit

/-- What holds of every state on the way, a call at a time. -/
theorem forall_prefix_cons {P : Served α → Prop} {s : Served α} {c : HeapCall α} {calls : List (HeapCall α)} :
    (∀ done t, done <+: c :: calls → (heapMachine f).run s done = some t → P t) ↔
      P s ∧ ∀ done t, done <+: calls → (heapMachine f).run (s.call f c) done = some t → P t := by
  constructor
  · intro h
    refine ⟨h [] s (List.nil_prefix) rfl, fun done t hdone hrun => ?_⟩
    exact h (c :: done) t ((List.prefix_cons_inj c).2 hdone) hrun
  · rintro ⟨hnow, hlater⟩ done t hdone hrun
    cases done with
    | nil =>
      cases hrun
      exact hnow
    | cons c' done =>
      obtain ⟨rfl, hrest⟩ := List.cons_prefix_cons.1 hdone
      exact hlater done t hrest hrun

theorem frontLeast_run_iff {s : Served α} (hs : FrontLeast f s.heapStack) (calls : List (HeapCall α)) :
    (∀ done t, done <+: calls → (heapMachine f).run s done = some t → FrontLeast f t.heapStack) ↔
      (heapMachine f).Guarded (CallKeepsLeast f) s calls := by
  induction calls generalizing s with
  | nil =>
    refine iff_of_true (fun done t hdone hrun => ?_) trivial
    rw [List.prefix_nil.1 hdone] at hrun
    cases hrun
    exact hs
  | cons c calls ih =>
    have hcall := frontLeast_call_iff hs c
    rw [forall_prefix_cons]
    constructor
    · rintro ⟨-, hlater⟩
      have hnext := hlater [] _ List.nil_prefix rfl
      refine ⟨hcall.1 hnext, fun t ht => ?_⟩
      cases ht
      exact (ih hnext).1 hlater
    · rintro ⟨hkeeps, hrest⟩
      exact ⟨hs, (ih (hcall.2 hkeeps)).2 (hrest _ rfl)⟩

/-- **What the heap does as a priority queue.** After any sequence of calls `exitHeap` answers nil exactly if
all has been taken out, and what is held is what was put in and not taken out. It answers with a least
element all along the sequence exactly if every `exitHeap` of the sequence has moved a least one of those
left to the front. -/
theorem heapStack_serves_least_iff (calls : List (HeapCall α)) :
    (∀ s, (heapMachine f).run .empty calls = some s → Accounted f s) ∧
    ((∀ done s, done <+: calls → (heapMachine f).run .empty done = some s → AnswersLeast f s) ↔
      (heapMachine f).Guarded (CallKeepsLeast f) .empty calls) := by
  constructor
  · intro s hrun
    refine Machine.invariant (I := Accounted f) (fun s c t hs hstep => ?_) accounted_empty hrun
    cases hstep
    exact hs.call c
  · rw [← frontLeast_run_iff frontLeast_empty]
    simp only [answersLeast_iff]

/-- After 1, 2 and 3 have been put in and 1 has been taken out, 3 comes before 2. -/
theorem heapStack_serves_larger :
    ¬ ∀ (calls : List (HeapCall ℕ)) (s : Served ℕ), (heapMachine id).run .empty calls = some s →
      Accounted id s ∧ AnswersLeast id s := by
  intro h
  have hleast := (h [.intoHeap 1, .intoHeap 2, .intoHeap 3, .exitHeap] ⟨[3, 2], [3, 2, 1], [1]⟩ (by rfl)).2
  exact absurd (hleast 3 [2] (by rfl) 2 (by decide)) (by decide)

end Slam.Astar
