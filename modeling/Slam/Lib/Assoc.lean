import Mathlib.Tactic

/-!
# Tables as lists of entries

A table with at most one value for each key is the list of its entries, with distinct keys. A key is
cleared by filtering its entry out, and set by adding an entry after that.
-/

namespace Assoc

variable {α β : Type*} [DecidableEq α] {l : List (α × β)} {k : α} {v : β}

theorem lookup_eq_none : l.lookup k = none ↔ k ∉ l.map Prod.fst := by
  simp only [List.lookup_eq_none_iff, bne_iff_ne, List.mem_map, not_exists, not_and]
  exact ⟨fun h x hx heq => h x hx heq.symm, fun h x hx heq => h x hx heq.symm⟩

theorem lookup_eq_some (h : (l.map Prod.fst).Nodup) : l.lookup k = some v ↔ (k, v) ∈ l := by
  induction l with
  | nil => simp
  | cons x l ih =>
    obtain ⟨hx, hl⟩ := List.nodup_cons.1 h
    obtain ⟨k', v'⟩ := x
    by_cases hk : k = k'
    · subst hk
      have hmem : (k, v) ∉ l := fun hmem => hx (List.mem_map.2 ⟨(k, v), hmem, rfl⟩)
      simp only [List.lookup_cons, beq_self_eq_true, Option.some.injEq, List.mem_cons, Prod.mk.injEq,
        true_and, hmem, or_false]
      exact eq_comm
    · simp only [List.lookup_cons, beq_eq_false_iff_ne.2 hk, List.mem_cons, Prod.mk.injEq, hk, false_and,
        false_or]
      exact ih hl

theorem mem_of_lookup (h : l.lookup k = some v) : (k, v) ∈ l := by
  obtain ⟨l₁, l₂, rfl, -⟩ := List.lookup_eq_some_iff.1 h
  simp

/-- A key without an entry is clear already. -/
theorem filter_eq_self (h : k ∉ l.map Prod.fst) : (l.filter fun x => x.1 ≠ k) = l := by
  refine List.filter_eq_self.2 fun x hx => ?_
  exact decide_eq_true fun heq => h (heq ▸ List.mem_map_of_mem hx)

theorem notMem_filter : k ∉ (l.filter fun x => x.1 ≠ k).map Prod.fst := by
  intro hmem
  obtain ⟨x, hx, rfl⟩ := List.mem_map.1 hmem
  simpa using (List.mem_filter.1 hx).2

/-- Looking up after a key has been cleared. -/
theorem lookup_filter (k' : α) : (l.filter fun x => x.1 ≠ k).lookup k' = if k' = k then none else l.lookup k' := by
  induction l with
  | nil => simp
  | cons x l ih =>
    obtain ⟨a, v⟩ := x
    by_cases ha : a = k
    · subst ha
      rw [List.filter_cons_of_neg (by simp), ih, List.lookup_cons]
      split_ifs with hk
      · rfl
      · rw [beq_eq_false_iff_ne.2 hk]
    · rw [List.filter_cons_of_pos (by simpa using ha), List.lookup_cons, List.lookup_cons, ih]
      by_cases hk : k' = a
      · subst hk
        simp [ha]
      · rw [beq_eq_false_iff_ne.2 hk]

/-- Looking up after a key that was clear has been set. -/
theorem lookup_concat (h : l.lookup k = none) (k' : α) :
    (l ++ [(k, v)]).lookup k' = if k' = k then some v else l.lookup k' := by
  rw [List.lookup_append]
  split_ifs with hk
  · subst hk
    simp [h]
  · have hnone : [(k, v)].lookup k' = none := by simp [List.lookup_cons, beq_eq_false_iff_ne.2 hk]
    rw [hnone, Option.or_none]

/-- A table is the entry of a key and the rest. -/
theorem perm_cons_filter (h : (l.map Prod.fst).Nodup) (hmem : (k, v) ∈ l) :
    l.Perm ((k, v) :: l.filter fun x => x.1 ≠ k) := by
  induction l with
  | nil => cases hmem
  | cons x l ih =>
    obtain ⟨hx, hl⟩ := List.nodup_cons.1 h
    rcases List.mem_cons.1 hmem with rfl | hmem
    · rw [List.filter_cons_of_neg (by simp), filter_eq_self hx]
    · have hne : x.1 ≠ k := fun heq => hx (heq ▸ List.mem_map.2 ⟨(k, v), hmem, rfl⟩)
      rw [List.filter_cons_of_pos (by simpa using hne)]
      exact ((ih hl hmem).cons x).trans (.swap ..)

omit [DecidableEq α] in
theorem nodup_filter (h : (l.map Prod.fst).Nodup) (p : α × β → Bool) : ((l.filter p).map Prod.fst).Nodup :=
  h.sublist (List.filter_sublist.map _)

omit [DecidableEq α] in
/-- Setting a key that is clear keeps the keys distinct. -/
theorem nodup_concat (h : (l.map Prod.fst).Nodup) (hk : k ∉ l.map Prod.fst) :
    ((l ++ [(k, v)]).map Prod.fst).Nodup := by
  rw [List.map_append, List.map_singleton]
  refine List.nodup_append.2 ⟨h, List.nodup_singleton k, ?_⟩
  rintro a ha b hb rfl
  obtain rfl : a = k := List.mem_singleton.1 hb
  exact hk ha

/-! ### Assignment -/

/-- The table after `t[k] = v`, where no value clears the key. -/
def assign (l : List (α × β)) (k : α) : Option β → List (α × β)
  | none => l.filter fun x => x.1 ≠ k
  | some v => (l.filter fun x => x.1 ≠ k) ++ [(k, v)]

theorem lookup_assign (l : List (α × β)) (k : α) (v : β) (k' : α) :
    (assign l k (some v)).lookup k' = if k' = k then some v else l.lookup k' := by
  have hclear : (l.filter fun x => x.1 ≠ k).lookup k = none := lookup_eq_none.2 notMem_filter
  rw [assign, lookup_concat hclear, lookup_filter]
  split_ifs <;> rfl

/-- The later of two assignments to a key counts. -/
theorem assign_assign (l : List (α × β)) (k : α) (v v' : β) :
    assign (assign l k (some v)) k (some v') = assign l k (some v') := by
  simp only [assign, List.filter_append, List.filter_filter, ne_eq, decide_not, Bool.and_self]
  simp

theorem assign_of_notMem (h : k ∉ l.map Prod.fst) : assign l k (some v) = l ++ [(k, v)] := by
  rw [assign, filter_eq_self h]

theorem nodup_assign (h : (l.map Prod.fst).Nodup) (k : α) (v : β) : ((assign l k (some v)).map Prod.fst).Nodup :=
  nodup_concat (nodup_filter h _) notMem_filter

/-- A table filled from a list has distinct keys. -/
theorem nodup_fill {ι : Type*} (xs : List ι) (key : ι → α) (val : ι → β) (h : (l.map Prod.fst).Nodup) :
    ((xs.foldl (fun t x => assign t (key x) (some (val x))) l).map Prod.fst).Nodup := by
  induction xs generalizing l with
  | nil => exact h
  | cons x xs ih => exact ih (nodup_assign h _ _)

/-- If the keys of the list are distinct then each element gets an entry. -/
theorem fill_eq {ι : Type*} (xs : List ι) (key : ι → α) (val : ι → β) (h : (l.map Prod.fst ++ xs.map key).Nodup) :
    xs.foldl (fun t x => assign t (key x) (some (val x))) l = l ++ xs.map fun x => (key x, val x) := by
  induction xs generalizing l with
  | nil => rw [List.foldl_nil, List.map_nil, List.append_nil]
  | cons x xs ih =>
    have hnew : key x ∉ l.map Prod.fst := fun hmem =>
      (List.nodup_append.1 h).2.2 _ hmem _ List.mem_cons_self rfl
    rw [List.foldl_cons, assign_of_notMem hnew, ih ?_, List.map_cons, List.append_assoc]
    · rfl
    · rw [List.map_append, List.map_singleton, List.append_assoc]
      exact h

omit [DecidableEq α] in
/-- Two tables with the same distinct keys have the same entries only if they agree at each key. -/
theorem map_perm_map_iff {γ ι : Type*} {xs : List ι} {key : ι → α} (h : (xs.map key).Nodup) {f g : ι → α × γ}
    (hf : ∀ x, (f x).1 = key x) (hg : ∀ x, (g x).1 = key x) :
    (xs.map f).Perm (xs.map g) ↔ ∀ x ∈ xs, f x = g x := by
  constructor
  · intro hperm x hx
    obtain ⟨y, hy, hyx⟩ := List.mem_map.1 (hperm.mem_iff.1 (List.mem_map_of_mem (f := f) hx))
    have hkey : key y = key x := by rw [← hg, ← hf, hyx]
    rw [← hyx, List.inj_on_of_nodup_map h hy hx hkey]
  · intro hsame
    rw [List.map_congr_left hsame]

end Assoc
