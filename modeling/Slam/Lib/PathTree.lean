import Mathlib.Data.List.Nodup
import Mathlib.Data.List.Infix
import Mathlib.Algebra.Order.BigOperators.Group.List
import Mathlib.Algebra.Order.Ring.Nat
import Mathlib.Tactic.SplitIfs

/-!
# Trees of paths

A tree without repetitions is a list of paths, each of them the steps from the root to a node with the last one
first, such that with a node the tree has the nodes on the way to it. A recursion that visits the children of a
node one after another, each followed by what is below it, is a fold over a list (`walk_eq_foldlM`), which has
every node below once (`mem_below`, `nodup_below`) and after its parent (`parentsFirst_below`).
-/

namespace PathTree

variable {δ σ : Type}

/-- Each node once, the root among them, and with a node its parent. -/
structure IsTree (paths : List (List δ)) : Prop where
  nodup : paths.Nodup
  root : [] ∈ paths
  closed : ∀ d p, d :: p ∈ paths → p ∈ paths

theorem IsTree.mem_of_suffix {paths : List (List δ)} (ht : IsTree paths) {p q : List δ} (hsuffix : p <:+ q)
    (hq : q ∈ paths) : p ∈ paths := by
  obtain ⟨front, rfl⟩ := hsuffix
  induction front with
  | nil => exact hq
  | cons d front ih => exact ih (ht.closed d _ hq)

/-- A tree in which a leaf gets children. -/
theorem IsTree.branch {paths : List (List δ)} (ht : IsTree paths) {p : List δ} (hp : p ∈ paths)
    (hleaf : ∀ d, d :: p ∉ paths) {ds : List δ} (hnodup : ds.Nodup) : IsTree (paths ++ ds.map (· :: p)) where
  nodup := by
    refine List.nodup_append.2 ⟨ht.nodup, hnodup.map fun a b hab => (List.cons.inj hab).1, ?_⟩
    rintro q hold other hnew rfl
    obtain ⟨d, -, rfl⟩ := List.mem_map.1 hnew
    exact hleaf d hold
  root := List.mem_append_left _ ht.root
  closed d q hq := by
    rcases List.mem_append.1 hq with hold | hnew
    · exact List.mem_append_left _ (ht.closed d q hold)
    · obtain ⟨d', -, heq⟩ := List.mem_map.1 hnew
      exact List.mem_append_left _ ((List.cons.inj heq).2 ▸ hp)

/-- Each node of a list comes after its parent, where some are known before. -/
def ParentsFirst : List (List δ) → List (List δ) → Prop
  | _, [] => True
  | known, q :: l => (∃ d, ∃ p ∈ known, q = d :: p) ∧ ParentsFirst (q :: known) l

theorem ParentsFirst.mono {known known' l : List (List δ)} (hsub : known ⊆ known') (h : ParentsFirst known l) :
    ParentsFirst known' l := by
  induction l generalizing known known' with
  | nil => trivial
  | cons q l ih =>
    obtain ⟨⟨d, p, hp, hq⟩, hrest⟩ := h
    exact ⟨⟨d, p, hsub hp, hq⟩, ih (List.cons_subset_cons q hsub) hrest⟩

theorem ParentsFirst.append {known l l' : List (List δ)} (h : ParentsFirst known l) (h' : ParentsFirst known l') :
    ParentsFirst known (l ++ l') := by
  induction l generalizing known with
  | nil => exact h'
  | cons q l ih => exact ⟨h.1, ih h.2 (h'.mono (List.subset_cons_self q known))⟩

/-- As many levels as the tree has below a node, or more. -/
def Deep (paths : List (List δ)) (levels : ℕ) (p : List δ) : Prop :=
  ∀ q ∈ paths, p <:+ q → q.length < p.length + levels

/-- The number of levels of a tree. -/
def levels (paths : List (List δ)) : ℕ := (paths.map List.length).sum + 1

theorem deep_levels (paths : List (List δ)) (p : List δ) : Deep paths (levels paths) p := by
  intro q hq _
  have hle : q.length ≤ (paths.map List.length).sum := List.single_le_sum (fun _ _ => Nat.zero_le _) _ (List.mem_map_of_mem hq)
  unfold levels
  omega

theorem Deep.child {paths : List (List δ)} {levels : ℕ} {d : δ} {p : List δ} (h : Deep paths (levels + 1) p) :
    Deep paths levels (d :: p) := by
  intro q hq hsuffix
  have hlength := h q hq ((List.suffix_cons d p).trans hsuffix)
  rw [List.length_cons]
  omega

variable [DecidableEq δ] (branches : List δ) (paths : List (List δ))

/-- The recursion below a node: each child is visited, and then what is below it. None if so many levels are not
enough. -/
def walk (visit : List δ → σ → Option σ) : ℕ → List δ → σ → Option σ
  | 0, _, _ => none
  | levels + 1, p, s =>
    branches.foldlM (fun s d =>
      if d :: p ∈ paths then (visit (d :: p) s).bind (walk visit levels (d :: p)) else some s) s

/-- The nodes below a node, in the order of their visits. -/
def below : ℕ → List δ → List (List δ)
  | 0, _ => []
  | levels + 1, p => branches.flatMap fun d => if d :: p ∈ paths then (d :: p) :: below levels (d :: p) else []

variable {branches paths}

/-- **The recursion is a fold.** -/
theorem walk_eq_foldlM {visit : List δ → σ → Option σ} {levels : ℕ} {p : List δ} (hp : p ∈ paths)
    (hdeep : Deep paths levels p) (s : σ) :
    walk branches paths visit levels p s = (below branches paths levels p).foldlM (fun s q => visit q s) s := by
  induction levels generalizing p s with
  | zero => exact absurd (hdeep p hp (List.suffix_refl p)) (by simp)
  | succ levels ih =>
    have hloop : ∀ (ds : List δ) (s : σ),
        ds.foldlM (fun s d =>
            if d :: p ∈ paths then (visit (d :: p) s).bind (walk branches paths visit levels (d :: p)) else some s) s =
          (ds.flatMap fun d => if d :: p ∈ paths then (d :: p) :: below branches paths levels (d :: p) else []).foldlM
            (fun s q => visit q s) s := by
      intro ds
      induction ds with
      | nil => exact fun _ => rfl
      | cons d ds ihds =>
        intro s
        rw [List.foldlM_cons, List.flatMap_cons, List.foldlM_append]
        by_cases hmem : d :: p ∈ paths
        · simp only [if_pos hmem, List.foldlM_cons, Option.bind_eq_bind, Option.bind_assoc]
          refine Option.bind_congr fun s' _ => ?_
          rw [ih hmem hdeep.child s']
          exact Option.bind_congr fun s'' _ => ihds s''
        · simp only [if_neg hmem, List.foldlM_nil, Option.pure_def, Option.bind_eq_bind, Option.bind_some]
          exact ihds s
    exact hloop branches s

theorem suffix_of_mem_below {levels : ℕ} {p q : List δ} (hq : q ∈ below branches paths levels p) :
    q ∈ paths ∧ ∃ d, d :: p <:+ q := by
  induction levels generalizing p with
  | zero => exact absurd hq List.not_mem_nil
  | succ levels ih =>
    unfold below at hq
    obtain ⟨d, -, hd⟩ := List.mem_flatMap.1 hq
    split_ifs at hd with hmem
    · rcases List.mem_cons.1 hd with rfl | hrest
      · exact ⟨hmem, d, List.suffix_refl _⟩
      · obtain ⟨hpaths, d', hsuffix⟩ := ih hrest
        exact ⟨hpaths, d, (List.suffix_cons d' _).trans hsuffix⟩
    · exact absurd hd List.not_mem_nil

/-- **The nodes below.** -/
theorem mem_below (ht : IsTree paths) (hall : ∀ d, d ∈ branches) {levels : ℕ} {p q : List δ}
    (hdeep : Deep paths levels p) :
    q ∈ below branches paths levels p ↔ q ∈ paths ∧ p <:+ q ∧ q ≠ p := by
  constructor
  · intro hq
    obtain ⟨hpaths, d, hsuffix⟩ := suffix_of_mem_below hq
    refine ⟨hpaths, (List.suffix_cons d p).trans hsuffix, ?_⟩
    rintro rfl
    have hlength := hsuffix.length_le
    rw [List.length_cons] at hlength
    omega
  · rintro ⟨hq, ⟨front, rfl⟩, hne⟩
    induction levels generalizing p front with
    | zero => exact absurd (hdeep _ hq (List.suffix_append front p)) (by simp)
    | succ levels ih =>
      rcases List.eq_nil_or_concat front with rfl | ⟨front', d, rfl⟩
      · exact absurd rfl hne
      rw [List.concat_eq_append, List.append_assoc, List.singleton_append] at hq ⊢
      have hchild : d :: p ∈ paths := ht.mem_of_suffix (List.suffix_append front' (d :: p)) hq
      unfold below
      refine List.mem_flatMap.2 ⟨d, hall d, ?_⟩
      rw [if_pos hchild]
      by_cases hsame : front' ++ d :: p = d :: p
      · rw [hsame]
        exact List.mem_cons_self
      · exact List.mem_cons_of_mem _ (ih hdeep.child front' hq hsame)

theorem nodup_below (hbranches : branches.Nodup) (levels : ℕ) (p : List δ) : (below branches paths levels p).Nodup := by
  induction levels generalizing p with
  | zero => exact List.nodup_nil
  | succ levels ih =>
    unfold below
    refine List.nodup_flatMap.2 ⟨fun d _ => ?_, ?_⟩
    · split_ifs with hmem
      · refine List.nodup_cons.2 ⟨fun hself => ?_, ih (d :: p)⟩
        obtain ⟨-, d', hsuffix⟩ := suffix_of_mem_below hself
        have hlength := hsuffix.length_le
        rw [List.length_cons] at hlength
        omega
      · exact List.nodup_nil
    · -- what is below one child ends with it
      have hends : ∀ d q, q ∈ (if d :: p ∈ paths then (d :: p) :: below branches paths levels (d :: p) else []) →
          d :: p <:+ q := by
        intro d q hq
        split_ifs at hq with hmem
        · rcases List.mem_cons.1 hq with rfl | hrest
          · exact List.suffix_refl _
          · obtain ⟨-, d', hsuffix⟩ := suffix_of_mem_below hrest
            exact (List.suffix_cons d' _).trans hsuffix
        · exact absurd hq List.not_mem_nil
      refine hbranches.imp fun {a b} hne q ha hb => hne ?_
      have hsame := List.suffix_of_suffix_length_le (hends a q ha) (hends b q hb) (by simp)
      exact (List.cons.inj (hsame.eq_of_length (by simp))).1

theorem parentsFirst_below {known : List (List δ)} {p : List δ} (hp : p ∈ known) (levels : ℕ) :
    ParentsFirst known (below branches paths levels p) := by
  induction levels generalizing p known with
  | zero => trivial
  | succ levels ih =>
    have hloop : ∀ ds : List δ, ParentsFirst known
        (ds.flatMap fun d => if d :: p ∈ paths then (d :: p) :: below branches paths levels (d :: p) else []) := by
      intro ds
      induction ds with
      | nil => trivial
      | cons d ds ihds =>
        rw [List.flatMap_cons]
        refine ParentsFirst.append ?_ ihds
        split_ifs with hmem
        · exact ⟨⟨d, p, hp, rfl⟩, ih List.mem_cons_self⟩
        · trivial
    exact hloop branches

end PathTree
