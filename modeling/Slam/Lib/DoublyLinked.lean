import Mathlib.Tactic

/-!
# Doubly linked lists

Cells at addresses `α` point forwards and backwards. `Segment p h xs n` says that the cells `xs` follow
each other, entered through the pointer `h` and left through the pointer `n`, with `p` in front of the
first one; a whole list is the segment entered at its head, with null at both ends. The four ways to
write the pointers that matter, putting a cell before another one or behind the last one and taking
out the first cell or an inner one, are sequences of single writes. Each is shown to turn a well linked list into
a well linked list.
-/

/-- The pointers of the cells, `none` for null. -/
structure Links (α : Type*) where
  prev : α → Option α
  next : α → Option α

namespace Links

variable {α : Type*}

/-- The cells `xs` are linked, from the pointer `h` to the pointer `n`; before the first is `p`. -/
def Segment (L : Links α) : Option α → Option α → List α → Option α → Prop
  | _, h, [], n => h = n
  | p, h, a :: xs, n => h = some a ∧ L.prev a = p ∧ L.Segment (some a) (L.next a) xs n

/-- The list that starts at `head` consists of the cells `xs`. -/
def WellLinked (L : Links α) (head : Option α) (xs : List α) : Prop := L.Segment none head xs none

/-- The last of the cells `xs`, or `p` if there is none. -/
def lastOr (p : Option α) : List α → Option α
  | [] => p
  | a :: xs => lastOr (some a) xs

@[simp] theorem lastOr_concat (p : Option α) (xs : List α) (a : α) : lastOr p (xs ++ [a]) = some a := by
  induction xs generalizing p with
  | nil => rfl
  | cons b xs ih => exact ih (some b)

theorem mem_of_lastOr {xs : List α} {a : α} (h : a ∈ lastOr none xs) : a ∈ xs := by
  rcases List.eq_nil_or_concat xs with rfl | ⟨xs, b, rfl⟩
  · cases h
  · rw [List.concat_eq_append, lastOr_concat, Option.mem_some_iff] at h
    simp [h]

theorem segment_append {L : Links α} {p h n : Option α} {xs ys : List α} :
    L.Segment p h (xs ++ ys) n ↔ ∃ m, L.Segment p h xs m ∧ L.Segment (lastOr p xs) m ys n := by
  induction xs generalizing p h with
  | nil => simp [Segment, lastOr]
  | cons a xs ih =>
    simp only [List.cons_append, Segment, lastOr, ih]
    constructor
    · rintro ⟨hh, hp, m, hxs, hys⟩
      exact ⟨m, ⟨hh, hp, hxs⟩, hys⟩
    · rintro ⟨m, ⟨hh, hp, hxs⟩, hys⟩
      exact ⟨hh, hp, m, hxs, hys⟩

/-- A list is entered at its first cell. -/
theorem Segment.entry {L : Links α} {p h : Option α} {xs : List α} (hseg : L.Segment p h xs none) :
    h = xs.head? := by
  cases xs with
  | nil => exact hseg
  | cons a xs => exact hseg.1

/-- A segment depends on the pointers of its own cells only. -/
theorem Segment.congr {L L' : Links α} {xs : List α} {p h n : Option α} (hseg : L.Segment p h xs n)
    (hsame : ∀ a ∈ xs, L'.prev a = L.prev a ∧ L'.next a = L.next a) : L'.Segment p h xs n := by
  induction xs generalizing p h with
  | nil => exact hseg
  | cons a xs ih =>
    obtain ⟨hh, hp, hrest⟩ := hseg
    obtain ⟨hprev, hnext⟩ := hsame a (List.mem_cons_self ..)
    refine ⟨hh, hprev.trans hp, ?_⟩
    rw [hnext]
    exact ih hrest fun b hb => hsame b (List.mem_cons_of_mem a hb)

/-- Two segments from one pointer to null have the same cells. -/
theorem Segment.unique {L : Links α} {xs ys : List α} {p q h : Option α}
    (hxs : L.Segment p h xs none) (hys : L.Segment q h ys none) : xs = ys := by
  induction xs generalizing p q h ys with
  | nil =>
    obtain rfl : h = none := hxs
    cases ys with
    | nil => rfl
    | cons b ys => exact absurd hys.1 (by simp)
  | cons a xs ih =>
    obtain ⟨rfl, -, hxs⟩ := hxs
    cases ys with
    | nil => exact absurd (show some a = none from hys) (by simp)
    | cons b ys =>
      obtain ⟨hab, -, hys⟩ := hys
      obtain rfl := Option.some.inj hab
      rw [ih hxs hys]

/-- A list that ends does not visit a cell twice. -/
theorem Segment.nodup {L : Links α} {xs : List α} {p h : Option α} (hseg : L.Segment p h xs none) :
    xs.Nodup := by
  induction xs generalizing p h with
  | nil => exact List.nodup_nil
  | cons a xs ih =>
    obtain ⟨-, -, hrest⟩ := hseg
    refine List.nodup_cons.2 ⟨?_, ih hrest⟩
    intro hmem
    -- The rest after the second visit is as long as the rest after the first.
    obtain ⟨ys, zs, rfl⟩ := List.append_of_mem hmem
    obtain ⟨m, -, -, -, hzs⟩ := segment_append.1 hrest
    have hlen := congrArg List.length (hrest.unique hzs)
    simp only [List.length_append, List.length_cons] at hlen
    omega

theorem WellLinked.nodup {L : Links α} {head : Option α} {xs : List α} (h : L.WellLinked head xs) :
    xs.Nodup := Segment.nodup h

/-- The pointers at a cell in the middle of a list. -/
theorem WellLinked.at {L : Links α} {head : Option α} {xs ys : List α} {a : α}
    (h : L.WellLinked head (xs ++ a :: ys)) :
    L.prev a = lastOr none xs ∧ L.Segment none head xs (some a) ∧
      L.Segment (some a) (L.next a) ys none := by
  obtain ⟨m, hxs, rfl, hprev, hys⟩ := segment_append.1 h
  exact ⟨hprev, hxs, hys⟩

/-- A cell behind another one is not the first. -/
theorem WellLinked.head_ne {L : Links α} {head : Option α} {xs ys : List α} {a c : α}
    (h : L.WellLinked head (xs ++ c :: a :: ys)) : head ≠ some a := by
  have hnodup := h.nodup
  rw [show head = _ from Segment.entry h]
  cases xs with
  | nil =>
    rintro ⟨rfl⟩
    simp at hnodup
  | cons b xs =>
    rintro ⟨rfl⟩
    simp at hnodup

/-! ### Writes -/

variable [DecidableEq α]

/-- Write the forward pointer of a cell. -/
def setNext (L : Links α) (a : α) (v : Option α) : Links α :=
  { L with next := Function.update L.next a v }

/-- Write the backward pointer of a cell. -/
def setPrev (L : Links α) (a : α) (v : Option α) : Links α :=
  { L with prev := Function.update L.prev a v }

@[simp] theorem setNext_prev (L : Links α) (a : α) (v : Option α) : (L.setNext a v).prev = L.prev := rfl
@[simp] theorem setPrev_next (L : Links α) (a : α) (v : Option α) : (L.setPrev a v).next = L.next := rfl

@[simp] theorem setNext_next_self (L : Links α) (a : α) (v : Option α) :
    (L.setNext a v).next a = v := Function.update_self ..

@[simp] theorem setPrev_prev_self (L : Links α) (a : α) (v : Option α) :
    (L.setPrev a v).prev a = v := Function.update_self ..

@[simp] theorem setNext_next_of_ne (L : Links α) {a b : α} (h : b ≠ a) (v : Option α) :
    (L.setNext a v).next b = L.next b := Function.update_of_ne h ..

@[simp] theorem setPrev_prev_of_ne (L : Links α) {a b : α} (h : b ≠ a) (v : Option α) :
    (L.setPrev a v).prev b = L.prev b := Function.update_of_ne h ..

/-- Redirect a forward pointer, if there is a cell to redirect. -/
def setNext? (L : Links α) : Option α → Option α → Links α
  | none, _ => L
  | some a, v => L.setNext a v

/-- Redirect a backward pointer, if there is a cell to redirect. -/
def setPrev? (L : Links α) : Option α → Option α → Links α
  | none, _ => L
  | some a, v => L.setPrev a v

/-- Put cell `b` before cell `a`. -/
def insertBefore (L : Links α) (b a : α) : Links α :=
  (((L.setNext b (some a)).setPrev b (L.prev a)).setNext? (L.prev a) (some b)).setPrev a (some b)

/-- Put cell `b` behind the last cell `a`. -/
def pushBack (L : Links α) (b a : α) : Links α :=
  ((L.setPrev b (some a)).setNext b none).setNext a (some b)

/-- Take the first cell `a` out. -/
def unlinkHead (L : Links α) (a : α) : Links α := L.setPrev? (L.next a) none

/-- Take cell `a` out, which is behind cell `c`. -/
def unlink (L : Links α) (c a : α) : Links α :=
  (L.setNext c (L.next a)).setPrev? (L.next a) (some c)

variable {L : Links α} {head : Option α} {xs ys : List α} {a b c : α}

theorem WellLinked.insertBefore_head (h : L.WellLinked head (a :: ys)) (hb : b ∉ a :: ys) :
    (L.insertBefore b a).WellLinked (some b) (b :: a :: ys) := by
  have hnodup := List.nodup_cons.1 h.nodup
  obtain ⟨-, hprev, hys⟩ := h
  have hne : b ≠ a := fun heq => hb (heq ▸ List.mem_cons_self ..)
  simp only [insertBefore, hprev, setNext?]
  refine ⟨rfl, by simp [hne], by simp, by simp, ?_⟩
  simp only [setPrev_next, setNext_next_of_ne L hne.symm]
  refine hys.congr ?_
  intro d hd
  have hda : d ≠ a := fun heq => hnodup.1 (heq ▸ hd)
  have hdb : d ≠ b := fun heq => hb (heq ▸ List.mem_cons_of_mem a hd)
  simp [hda, hdb]

theorem WellLinked.insertBefore_inner (h : L.WellLinked head (xs ++ c :: a :: ys))
    (hb : b ∉ xs ++ c :: a :: ys) :
    (L.insertBefore b a).WellLinked head (xs ++ c :: b :: a :: ys) := by
  have hnodup := h.nodup
  simp only [List.nodup_append, List.nodup_cons, List.mem_cons] at hnodup
  obtain ⟨-, ⟨hc, ha, -⟩, hapart⟩ := hnodup
  obtain ⟨hprevc, hxs, hnextc, hprev, hys⟩ := h.at
  simp only [List.mem_append, List.mem_cons, not_or] at hb hc
  simp only [insertBefore, hprev, setNext?]
  refine segment_append.2 ⟨some c, hxs.congr ?_, rfl, ?_, ?_, ?_, ?_, ?_, ?_⟩
  · intro d hd
    have hda : d ≠ a := hapart d hd a (by simp)
    have hdb : d ≠ b := fun heq => hb.1 (heq ▸ hd)
    have hdc : d ≠ c := hapart d hd c (by simp)
    simp [hda, hdb, hdc]
  · simp [hprevc, hc.1, Ne.symm hb.2.1]
  · simp
  · simp [hb.2.2.1]
  · simp [hb.2.1]
  · simp
  · simp only [setPrev_next]
    rw [setNext_next_of_ne _ (Ne.symm hc.1), setPrev_next, setNext_next_of_ne _ (Ne.symm hb.2.2.1)]
    refine hys.congr ?_
    intro d hd
    have hda : d ≠ a := fun heq => ha (heq ▸ hd)
    have hdb : d ≠ b := fun heq => hb.2.2.2 (heq ▸ hd)
    have hdc : d ≠ c := fun heq => hc.2 (heq ▸ hd)
    simp [hda, hdb, hdc]

theorem WellLinked.pushBack (h : L.WellLinked head (xs ++ [a])) (hb : b ∉ xs ++ [a]) :
    (L.pushBack b a).WellLinked head (xs ++ [a, b]) := by
  have hnodup := h.nodup
  simp only [List.nodup_append, List.mem_singleton] at hnodup
  obtain ⟨hprev, hxs, -⟩ := h.at
  simp only [List.mem_append, List.mem_singleton, not_or] at hb
  simp only [Links.pushBack]
  refine segment_append.2 ⟨some a, hxs.congr ?_, rfl, ?_, ?_, ?_, ?_⟩
  · intro d hd
    have hda : d ≠ a := hnodup.2.2 d hd a rfl
    have hdb : d ≠ b := fun heq => hb.1 (heq ▸ hd)
    simp [hda, hdb]
  · simp [hprev, Ne.symm hb.2]
  · simp
  · simp
  · exact by simp [Segment, hb.2]

theorem WellLinked.unlinkHead (h : L.WellLinked head (a :: ys)) :
    (L.unlinkHead a).WellLinked (L.next a) ys := by
  have hnodup := List.nodup_cons.1 h.nodup
  obtain ⟨-, -, hys⟩ := h
  cases ys with
  | nil =>
    simp only [Links.unlinkHead, show L.next a = none from hys, setPrev?]
    rfl
  | cons d ys =>
    obtain ⟨hnext, -, hys⟩ := hys
    simp only [Links.unlinkHead, hnext, setPrev?]
    refine ⟨rfl, by simp, hys.congr ?_⟩
    intro e he
    have hed : e ≠ d := fun heq => (List.nodup_cons.1 hnodup.2).1 (heq ▸ he)
    simp [hed]

theorem WellLinked.unlink (h : L.WellLinked head (xs ++ c :: a :: ys)) :
    (L.unlink c a).WellLinked head (xs ++ c :: ys) := by
  have hnodup := h.nodup
  simp only [List.nodup_append, List.nodup_cons, List.mem_cons, not_or] at hnodup
  obtain ⟨-, ⟨hc, ha, hnodup⟩, hapart⟩ := hnodup
  obtain ⟨hprevc, hxs, hnextc, hprev, hys⟩ := h.at
  cases ys with
  | nil =>
    simp only [Links.unlink, show L.next a = none from hys, setPrev?]
    refine segment_append.2 ⟨some c, hxs.congr ?_, rfl, hprevc, by simp [Segment]⟩
    intro d hd
    have hdc : d ≠ c := hapart d hd c (by simp)
    simp [hdc]
  | cons e ys =>
    obtain ⟨hnext, hpreve, hys⟩ := hys
    simp only [Links.unlink, hnext, setPrev?]
    have hce : c ≠ e := fun heq => hc.2 (heq ▸ List.mem_cons_self ..)
    refine segment_append.2 ⟨some c, hxs.congr ?_, rfl, by simp [hce, hprevc], by simp, by simp, ?_⟩
    · intro d hd
      have hdc : d ≠ c := hapart d hd c (by simp)
      have hde : d ≠ e := hapart d hd e (by simp)
      simp [hdc, hde]
    · simp only [setPrev_next, setNext_next_of_ne L hce.symm]
      refine hys.congr ?_
      intro d hd
      have hdc : d ≠ c := fun heq => hc.2 (heq ▸ List.mem_cons_of_mem e hd)
      have hde : d ≠ e := fun heq => (List.nodup_cons.1 hnodup).1 (heq ▸ hd)
      simp [hdc, hde]

end Links
