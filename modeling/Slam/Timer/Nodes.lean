import Slam.Lib.DoublyLinked
import Slam.Timer.TimerList

/-!
# The nodes of the timer list

`slam_timer_list.c` keeps its timers in nodes with a `prev` and a `next` pointer. Here the memory is
explicit: a node is read and written through its address, and reading an address that is not allocated
is a fault. The functions are those of the source, with a bound on the number of nodes a loop visits.

`Represents T ts` says that the nodes reached from the head are well linked and hold the timers `ts`.
On such a memory each function returns without a fault and does to the timers what the functions on
lists of `Slam.Timer.TimerList` do.
-/

namespace Slam

/-- `slam_timer_s`. -/
structure TimerNode (C : Type*) where
  interval : ℕ
  expireTime : ℕ
  forever : Bool
  ref : ℤ
  ctx : C
  prev : Option ℕ
  next : Option ℕ
  deriving DecidableEq

/-- The memory and `slam_timer_list_s`. Addresses are handed out in order and not used again. -/
structure TimerNodes (C : Type*) where
  node : ℕ → Option (TimerNode C)
  head : Option ℕ
  allocated : ℕ

variable {C : Type*}

/-- The timer that a node at an address holds. -/
def TimerNode.timer (n : TimerNode C) (a : ℕ) : Timer C :=
  ⟨a, n.interval, n.expireTime, n.forever, n.ref, n.ctx⟩

namespace TimerNodes

/-- `slam_timer_list_new`. -/
def new (C : Type*) : TimerNodes C := ⟨fun _ => none, none, 0⟩

/-- `slam_timer_new`: the new node is at the address `T.allocated`. -/
def timerNew (T : TimerNodes C) (now interval : ℕ) (forever : Bool) (ref : ℤ) (ctx : C) : TimerNodes C :=
  { T with
    node := Function.update T.node T.allocated
      (some ⟨interval, uint64 (now + interval), forever, ref, ctx, none, none⟩)
    allocated := T.allocated + 1 }

/-- `slam_timer_delete`. -/
def timerDelete (T : TimerNodes C) (a : ℕ) : Option (TimerNodes C) := do
  let _ ← T.node a
  some { T with node := Function.update T.node a none }

/-- Write a field of the node at `a`. -/
def modify (T : TimerNodes C) (a : ℕ) (f : TimerNode C → TimerNode C) : Option (TimerNodes C) := do
  let n ← T.node a
  some { T with node := Function.update T.node a (some (f n)) }

/-- `a->next = v`. -/
def setNext (T : TimerNodes C) (a : ℕ) (v : Option ℕ) : Option (TimerNodes C) :=
  T.modify a fun n => { n with next := v }

/-- `a->prev = v`. -/
def setPrev (T : TimerNodes C) (a : ℕ) (v : Option ℕ) : Option (TimerNodes C) :=
  T.modify a fun n => { n with prev := v }

/-- `if (p) { p->next = v; }`. -/
def setNext? (T : TimerNodes C) (p v : Option ℕ) : Option (TimerNodes C) :=
  match p with
  | none => some T
  | some p => T.setNext p v

/-- `if (p) { p->prev = v; }`. -/
def setPrev? (T : TimerNodes C) (p v : Option ℕ) : Option (TimerNodes C) :=
  match p with
  | none => some T
  | some p => T.setPrev p v

/-- The loop of `slam_timer_list_add`. -/
def addLoop (newnode : ℕ) : ℕ → ℕ → TimerNodes C → Option (TimerNodes C)
  | 0, _, _ => none
  | fuel + 1, a, T => do
    let n ← T.node a
    if (← T.node newnode).expireTime < n.expireTime then
      let T ← T.setNext newnode (some a)
      let T ← T.setPrev newnode n.prev
      let T ← T.setNext? n.prev (some newnode)
      let T ← T.setPrev a (some newnode)
      if some a = T.head then some { T with head := some newnode } else some T
    else
      match n.next with
      | none =>
        let T ← T.setPrev newnode (some a)
        let T ← T.setNext newnode none
        T.setNext a (some newnode)
      | some b => addLoop newnode fuel b T

/-- `slam_timer_list_add`. -/
def listAdd (T : TimerNodes C) (newnode : ℕ) : Option (TimerNodes C) :=
  match T.head with
  | none => do
    let T ← { T with head := some newnode }.setNext newnode none
    T.setPrev newnode none
  | some a => addLoop newnode T.allocated a T

/-- The loop of `slam_timer_list_find`. -/
def findLoop (T : TimerNodes C) (ref : ℤ) : ℕ → Option ℕ → Option (Option ℕ)
  | _, none => some none
  | 0, some _ => none
  | fuel + 1, some a =>
    (T.node a).bind fun n => if n.ref ≠ ref then T.findLoop ref fuel n.next else some (some a)

/-- `slam_timer_list_find`. -/
def listFind (T : TimerNodes C) (ref : ℤ) : Option (Option ℕ) := T.findLoop ref T.allocated T.head

/-- The pointers written by `slam_timer_list_remove_by_node`; a failed assertion is a fault. -/
def detach (T : TimerNodes C) (a : ℕ) (n : TimerNode C) : Option (TimerNodes C) :=
  if T.head = some a then ({ T with head := n.next }).setPrev? n.next none
  else
    match n.prev with
    | none => none
    | some p => do
      let T ← T.setNext p n.next
      T.setPrev? n.next (some p)

/-- `slam_timer_list_remove_by_node`. -/
def removeByNode (T : TimerNodes C) (a : ℕ) (removeTimer : Bool) : Option (TimerNodes C) := do
  let n ← T.node a
  let T ← T.detach a n
  if removeTimer then T.timerDelete a else some T

/-- `slam_timer_list_remove_by_ref`. -/
def removeByRef (T : TimerNodes C) (ref : ℤ) (removeTimer : Bool) : Option (TimerNodes C) :=
  (T.listFind ref).bind fun found =>
    match found with
    | none => some T
    | some a => T.removeByNode a removeTimer

/-- The timers seen when the list is followed from a pointer. -/
def walk (T : TimerNodes C) : ℕ → Option ℕ → List (Timer C)
  | 0, _ => []
  | _, none => []
  | fuel + 1, some a =>
    match T.node a with
    | none => []
    | some n => n.timer a :: T.walk fuel n.next

/-- The timers in the list. -/
def timers (T : TimerNodes C) : List (Timer C) := T.walk T.allocated T.head

/-! ### What the memory represents -/

/-- The pointers of all nodes. -/
def links (T : TimerNodes C) : Links ℕ :=
  ⟨fun a => (T.node a).bind TimerNode.prev, fun a => (T.node a).bind TimerNode.next⟩

/-- What the nodes hold beside their pointers. -/
def data (T : TimerNodes C) (a : ℕ) : Option (Timer C) := (T.node a).map fun n => n.timer a

/-- The list is well linked and holds the timers `ts`. -/
structure Represents (T : TimerNodes C) (ts : List (Timer C)) : Prop where
  linked : T.links.WellLinked T.head (ts.map Timer.id)
  holds : ∀ t ∈ ts, T.data t.id = some t
  bound : ∀ a, (T.data a).isSome → a < T.allocated

theorem data_isSome {T : TimerNodes C} {a : ℕ} : (T.data a).isSome ↔ ∃ n, T.node a = some n := by
  rw [data, Option.isSome_map, Option.isSome_iff_exists]

theorem Represents.node {T : TimerNodes C} {ts : List (Timer C)} (h : T.Represents ts) {t : Timer C}
    (ht : t ∈ ts) : ∃ n, T.node t.id = some n ∧ n.timer t.id = t := by
  have hdata := h.holds t ht
  obtain ⟨n, hn, htimer⟩ := Option.map_eq_some_iff.1 hdata
  exact ⟨n, hn, htimer⟩

theorem Represents.nodup {T : TimerNodes C} {ts : List (Timer C)} (h : T.Represents ts) :
    (ts.map Timer.id).Nodup := h.linked.nodup

/-- A list is not longer than the number of nodes handed out. -/
theorem Represents.length_le {T : TimerNodes C} {ts : List (Timer C)} (h : T.Represents ts) :
    ts.length ≤ T.allocated := by
  have hsub : ts.map Timer.id ⊆ List.range T.allocated := by
    intro a ha
    obtain ⟨t, ht, rfl⟩ := List.mem_map.1 ha
    exact List.mem_range.2 (h.bound t.id (by rw [h.holds t ht]; rfl))
  have hlen := (h.nodup.subperm hsub).length_le
  rwa [List.length_map, List.length_range] at hlen

theorem walk_eq {T : TimerNodes C} {ts : List (Timer C)} {fuel : ℕ} {p a : Option ℕ}
    (hseg : T.links.Segment p a (ts.map Timer.id) none) (hholds : ∀ t ∈ ts, T.data t.id = some t)
    (hfuel : ts.length ≤ fuel) : T.walk fuel a = ts := by
  induction ts generalizing fuel p a with
  | nil =>
    obtain rfl : a = none := hseg
    cases fuel <;> rfl
  | cons t ts ih =>
    obtain ⟨rfl, -, hrest⟩ := hseg
    obtain ⟨fuel, rfl⟩ := Nat.exists_eq_succ_of_ne_zero (Nat.ne_zero_of_lt hfuel)
    obtain ⟨n, hn, htimer⟩ := Option.map_eq_some_iff.1 (hholds t (List.mem_cons_self ..))
    have hnext : T.links.next t.id = n.next := by simp [links, hn]
    rw [hnext] at hrest
    simp only [walk, hn, htimer]
    rw [ih hrest (fun u hu => hholds u (List.mem_cons_of_mem t hu)) (Nat.le_of_succ_le_succ hfuel)]

/-- Following the list gives the timers it represents. -/
theorem Represents.timers_eq {T : TimerNodes C} {ts : List (Timer C)} (h : T.Represents ts) :
    T.timers = ts := walk_eq h.linked h.holds h.length_le

/-! ### Single writes -/

/-- Pointers were written, and nothing else. -/
structure Wrote (T T' : TimerNodes C) (L : Links ℕ) (head : Option ℕ) : Prop where
  links : T'.links = L
  head : T'.head = head
  allocated : T'.allocated = T.allocated
  data : T'.data = T.data

/-- Writing a field that is not part of the timer keeps the data. -/
theorem data_update {T : TimerNodes C} {a : ℕ} {n n' : TimerNode C} (hn : T.node a = some n)
    (htimer : n'.timer a = n.timer a) :
    ({ T with node := Function.update T.node a (some n') } : TimerNodes C).data = T.data := by
  funext b
  by_cases hb : b = a
  · subst hb
    simp only [TimerNodes.data, Function.update_self, hn, Option.map_some, htimer]
  · simp only [TimerNodes.data, Function.update_of_ne hb]

theorem setNext_spec {T : TimerNodes C} {a : ℕ} (ha : (T.data a).isSome) (v : Option ℕ) :
    ∃ T', T.setNext a v = some T' ∧ T.Wrote T' (T.links.setNext a v) T.head := by
  obtain ⟨n, hn⟩ := data_isSome.1 ha
  refine ⟨{ T with node := Function.update T.node a (some { n with next := v }) },
    by simp [setNext, modify, hn], ?_, rfl, rfl, data_update hn rfl⟩
  simp only [TimerNodes.links, Links.setNext, Links.mk.injEq]
  constructor <;> funext b <;> by_cases hb : b = a
  · subst hb; simp [hn]
  · simp [hb]
  · subst hb; simp
  · simp [hb]

theorem setPrev_spec {T : TimerNodes C} {a : ℕ} (ha : (T.data a).isSome) (v : Option ℕ) :
    ∃ T', T.setPrev a v = some T' ∧ T.Wrote T' (T.links.setPrev a v) T.head := by
  obtain ⟨n, hn⟩ := data_isSome.1 ha
  refine ⟨{ T with node := Function.update T.node a (some { n with prev := v }) },
    by simp [setPrev, modify, hn], ?_, rfl, rfl, data_update hn rfl⟩
  simp only [TimerNodes.links, Links.setPrev, Links.mk.injEq]
  constructor <;> funext b <;> by_cases hb : b = a
  · subst hb; simp
  · simp [hb]
  · subst hb; simp [hn]
  · simp [hb]

theorem setNext?_spec {T : TimerNodes C} {p : Option ℕ} (hp : ∀ a ∈ p, (T.data a).isSome)
    (v : Option ℕ) :
    ∃ T', T.setNext? p v = some T' ∧ T.Wrote T' (T.links.setNext? p v) T.head := by
  cases p with
  | none => exact ⟨T, rfl, rfl, rfl, rfl, rfl⟩
  | some a => exact setNext_spec (hp a rfl) v

theorem setPrev?_spec {T : TimerNodes C} {p : Option ℕ} (hp : ∀ a ∈ p, (T.data a).isSome)
    (v : Option ℕ) :
    ∃ T', T.setPrev? p v = some T' ∧ T.Wrote T' (T.links.setPrev? p v) T.head := by
  cases p with
  | none => exact ⟨T, rfl, rfl, rfl, rfl, rfl⟩
  | some a => exact setPrev_spec (hp a rfl) v

/-! ### The functions on a list -/

/-- The data and the number of nodes are as before. -/
structure SameData (T T' : TimerNodes C) : Prop where
  data : T'.data = T.data
  allocated : T'.allocated = T.allocated

theorem Wrote.represents {T T' : TimerNodes C} {L : Links ℕ} {head : Option ℕ} {ts us : List (Timer C)}
    (h : T.Wrote T' L head) (hT : T.Represents ts) (hL : L.WellLinked head (us.map Timer.id))
    (hus : ∀ u ∈ us, T.data u.id = some u) : T'.Represents us ∧ T.SameData T' := by
  refine ⟨⟨?_, ?_, ?_⟩, h.data, h.allocated⟩
  · rw [h.links, h.head]
    exact hL
  · rw [h.data]
    exact hus
  · rw [h.data, h.allocated]
    exact hT.bound

/-- What the loop finds in the node it stands at. -/
theorem Represents.at {T : TimerNodes C} {us vs : List (Timer C)} {t : Timer C}
    (h : T.Represents (us ++ t :: vs)) :
    ∃ n, T.node t.id = some n ∧ n.timer t.id = t ∧
      n.prev = Links.lastOr none (us.map Timer.id) ∧ n.next = (vs.map Timer.id).head? := by
  obtain ⟨n, hn, htimer⟩ := h.node (t := t) (by simp)
  have hlinked := h.linked
  rw [List.map_append, List.map_cons] at hlinked
  obtain ⟨hprev, -, hseg⟩ := hlinked.at
  have hnext : T.links.next t.id = (vs.map Timer.id).head? := hseg.entry
  refine ⟨n, hn, htimer, ?_, ?_⟩
  · simpa [links, hn] using hprev
  · simpa [links, hn] using hnext

/-- Before the node `t`, a new node is inserted. -/
theorem insertBefore_spec {T : TimerNodes C} {us vs : List (Timer C)} {t x : Timer C}
    {n : TimerNode C} (h : T.Represents (us ++ t :: vs)) (hn : T.node t.id = some n)
    (hx : T.data x.id = some x) (hfresh : x.id ∉ (us ++ t :: vs).map Timer.id) :
    ∃ T', (do
      let T ← T.setNext x.id (some t.id)
      let T ← T.setPrev x.id n.prev
      let T ← T.setNext? n.prev (some x.id)
      let T ← T.setPrev t.id (some x.id)
      if some t.id = T.head then some { T with head := some x.id } else some T) = some T' ∧
      T'.Represents (us ++ x :: t :: vs) ∧ T.SameData T' := by
  have hprev : n.prev = T.links.prev t.id := by simp [links, hn]
  have hold : ∀ u ∈ us ++ t :: vs, (T.data u.id).isSome := fun u hu => by rw [h.holds u hu]; rfl
  have hxsome : (T.data x.id).isSome := by rw [hx]; rfl
  obtain ⟨T₁, h₁, w₁⟩ := setNext_spec hxsome (some t.id)
  obtain ⟨T₂, h₂, w₂⟩ := setPrev_spec (T := T₁) (a := x.id) (by rwa [w₁.data]) n.prev
  obtain ⟨T₃, h₃, w₃⟩ := setNext?_spec (T := T₂) (p := n.prev) (by
    intro a ha
    rw [w₂.data, w₁.data]
    obtain ⟨m, hm, -, hlast, -⟩ := h.at
    obtain rfl := Option.some.inj (hm.symm.trans hn)
    rw [hlast] at ha
    obtain ⟨u, hu, rfl⟩ := List.mem_map.1 (Links.mem_of_lastOr ha)
    exact hold u (List.mem_append_left _ hu)) (some x.id)
  obtain ⟨T₄, h₄, w₄⟩ := setPrev_spec (T := T₃) (a := t.id) (by
    rw [w₃.data, w₂.data, w₁.data]
    exact hold t (by simp)) (some x.id)
  have hlinks : T₄.links = T.links.insertBefore x.id t.id := by
    rw [w₄.links, w₃.links, w₂.links, w₁.links, hprev]
    rfl
  have hhead : T₄.head = T.head := by rw [w₄.head, w₃.head, w₂.head, w₁.head]
  have hdata : T₄.data = T.data := by rw [w₄.data, w₃.data, w₂.data, w₁.data]
  have halloc : T₄.allocated = T.allocated := by
    rw [w₄.allocated, w₃.allocated, w₂.allocated, w₁.allocated]
  have hholds : ∀ u ∈ us ++ x :: t :: vs, T.data u.id = some u := by
    intro u hu
    simp only [List.mem_append, List.mem_cons] at hu
    rcases hu with hu | rfl | rfl | hu
    · exact h.holds u (by simp [hu])
    · exact hx
    · exact h.holds u (by simp)
    · exact h.holds u (by simp [hu])
  simp only [h₁, h₂, h₃, h₄, Option.bind_eq_bind, Option.bind_some, hhead]
  have hlinked := h.linked
  rw [List.map_append, List.map_cons] at hlinked hfresh
  rcases List.eq_nil_or_concat us with rfl | ⟨us, c, rfl⟩
  · rw [if_pos hlinked.1.symm]
    refine ⟨_, rfl, Wrote.represents (T := T) ⟨hlinks, rfl, halloc, hdata⟩ h ?_ hholds⟩
    exact hlinked.insertBefore_head hfresh
  · rw [List.concat_eq_append, List.map_append, List.append_assoc] at hlinked hfresh
    rw [if_neg fun heq => hlinked.head_ne heq.symm]
    refine ⟨_, rfl, Wrote.represents (T := T) ⟨hlinks, hhead, halloc, hdata⟩ h ?_ hholds⟩
    rw [List.concat_eq_append, List.map_append, List.map_append, List.append_assoc]
    exact hlinked.insertBefore_inner hfresh

/-- Behind the last node `t`, a new node is added. -/
theorem pushBack_spec {T : TimerNodes C} {us : List (Timer C)} {t x : Timer C}
    (h : T.Represents (us ++ [t])) (hx : T.data x.id = some x)
    (hfresh : x.id ∉ (us ++ [t]).map Timer.id) :
    ∃ T', (do
      let T ← T.setPrev x.id (some t.id)
      let T ← T.setNext x.id none
      T.setNext t.id (some x.id)) = some T' ∧
      T'.Represents (us ++ [t, x]) ∧ T.SameData T' := by
  have hxsome : (T.data x.id).isSome := by rw [hx]; rfl
  obtain ⟨T₁, h₁, w₁⟩ := setPrev_spec hxsome (some t.id)
  obtain ⟨T₂, h₂, w₂⟩ := setNext_spec (T := T₁) (a := x.id) (by rwa [w₁.data]) none
  obtain ⟨T₃, h₃, w₃⟩ := setNext_spec (T := T₂) (a := t.id) (by
    rw [w₂.data, w₁.data, h.holds t (by simp)]
    rfl) (some x.id)
  have hlinks : T₃.links = T.links.pushBack x.id t.id := by
    rw [w₃.links, w₂.links, w₁.links]
    rfl
  have hhead : T₃.head = T.head := by rw [w₃.head, w₂.head, w₁.head]
  have hdata : T₃.data = T.data := by rw [w₃.data, w₂.data, w₁.data]
  have halloc : T₃.allocated = T.allocated := by rw [w₃.allocated, w₂.allocated, w₁.allocated]
  simp only [h₁, h₂, h₃, Option.bind_eq_bind, Option.bind_some]
  refine ⟨_, rfl, Wrote.represents (T := T) ⟨hlinks, hhead, halloc, hdata⟩ h ?_ ?_⟩
  · have hlinked := h.linked
    rw [List.map_append, List.map_singleton] at hlinked hfresh
    rw [List.map_append]
    exact hlinked.pushBack hfresh
  · intro u hu
    simp only [List.mem_append, List.mem_cons, List.not_mem_nil, or_false] at hu
    rcases hu with hu | rfl | rfl
    · exact h.holds u (by simp [hu])
    · exact h.holds u (by simp)
    · exact hx

/-- The loop of `slam_timer_list_add`, standing at node `t` behind the nodes `us`. The induction is on
the nodes that are left. -/
theorem addLoop_spec {T : TimerNodes C} {x : Timer C} (hx : T.data x.id = some x)
    {vs : List (Timer C)} :
    ∀ (us : List (Timer C)) {t : Timer C} {fuel : ℕ}, T.Represents (us ++ t :: vs) →
      x.id ∉ (us ++ t :: vs).map Timer.id → vs.length < fuel →
      ∃ T', addLoop x.id fuel t.id T = some T' ∧
        T'.Represents (us ++ timerListAdd x (t :: vs)) ∧ T.SameData T' := by
  obtain ⟨m, hm, hmx⟩ := Option.map_eq_some_iff.1 hx
  have hexpire : m.expireTime = x.expireTime := congrArg Timer.expireTime hmx
  induction vs with
  | nil =>
    intro us t fuel h hfresh hfuel
    obtain ⟨fuel, rfl⟩ := Nat.exists_eq_succ_of_ne_zero (Nat.ne_zero_of_lt hfuel)
    obtain ⟨n, hn, hnt, -, hnext⟩ := h.at
    have hnexpire : n.expireTime = t.expireTime := congrArg Timer.expireTime hnt
    simp only [addLoop, hn, hm, Option.bind_eq_bind, Option.bind_some, hexpire, hnexpire, hnext,
      timerListAdd]
    split_ifs
    · exact insertBefore_spec h hn hx hfresh
    · exact pushBack_spec h hx hfresh
  | cons v vs ih =>
    intro us t fuel h hfresh hfuel
    obtain ⟨fuel, rfl⟩ := Nat.exists_eq_succ_of_ne_zero (Nat.ne_zero_of_lt hfuel)
    obtain ⟨n, hn, hnt, -, hnext⟩ := h.at
    have hnexpire : n.expireTime = t.expireTime := congrArg Timer.expireTime hnt
    rw [timerListAdd]
    simp only [addLoop, hn, hm, Option.bind_eq_bind, Option.bind_some, hexpire, hnexpire, hnext,
      List.map_cons, List.head?_cons]
    split_ifs
    · exact insertBefore_spec h hn hx hfresh
    · rw [List.append_cons] at h hfresh ⊢
      exact ih _ h hfresh (Nat.lt_of_succ_lt_succ hfuel)

/-- **`slam_timer_list_add`** puts the timer into the list as the function on lists does. -/
theorem listAdd_spec {T : TimerNodes C} {ts : List (Timer C)} {x : Timer C} (h : T.Represents ts)
    (hx : T.data x.id = some x) (hfresh : x.id ∉ ts.map Timer.id) :
    ∃ T', T.listAdd x.id = some T' ∧ T'.Represents (timerListAdd x ts) ∧ T.SameData T' := by
  cases ts with
  | nil =>
    have hhead : T.head = none := h.linked
    have hxsome : (T.data x.id).isSome := by rw [hx]; rfl
    obtain ⟨T₁, h₁, w₁⟩ := setNext_spec (T := { T with head := some x.id }) (a := x.id) hxsome none
    obtain ⟨T₂, h₂, w₂⟩ := setPrev_spec (T := T₁) (a := x.id) (by rw [w₁.data]; exact hxsome) none
    simp only [listAdd, hhead, h₁, h₂, Option.bind_eq_bind, Option.bind_some]
    refine ⟨T₂, rfl, Wrote.represents (T := T) ⟨w₂.links, w₂.head.trans w₁.head,
      w₂.allocated.trans w₁.allocated, w₂.data.trans w₁.data⟩ h ?_ ?_⟩
    · rw [w₁.links]
      exact ⟨rfl, by simp, by simp [Links.Segment]⟩
    · intro u hu
      rw [timerListAdd, List.mem_singleton] at hu
      subst hu
      exact hx
  | cons t ts =>
    have hhead : T.head = some t.id := h.linked.1
    simp only [listAdd, hhead]
    exact addLoop_spec hx [] h hfresh (Nat.lt_of_succ_le h.length_le)

theorem findLoop_spec {T : TimerNodes C} {ref : ℤ} {ts : List (Timer C)} :
    ∀ {p a : Option ℕ} {fuel : ℕ}, T.links.Segment p a (ts.map Timer.id) none →
      (∀ t ∈ ts, T.data t.id = some t) → ts.length ≤ fuel →
      T.findLoop ref fuel a = some ((timerListFind ts ref).map Timer.id) := by
  induction ts with
  | nil =>
    intro p a fuel hseg _ _
    obtain rfl : a = none := hseg
    cases fuel <;> rfl
  | cons t ts ih =>
    intro p a fuel hseg hholds hfuel
    obtain ⟨rfl, -, hrest⟩ := hseg
    obtain ⟨fuel, rfl⟩ := Nat.exists_eq_succ_of_ne_zero (Nat.ne_zero_of_lt hfuel)
    obtain ⟨n, hn, htimer⟩ := Option.map_eq_some_iff.1 (hholds t (List.mem_cons_self ..))
    have hnext : T.links.next t.id = n.next := by simp [links, hn]
    have href : n.ref = t.ref := congrArg Timer.ref htimer
    rw [hnext] at hrest
    simp only [findLoop, hn, Option.bind_some, href, timerListFind, List.find?_cons]
    by_cases heq : t.ref = ref
    · simp [heq]
    · simp only [heq, ne_eq, not_false_eq_true, if_true, decide_false]
      exact ih hrest (fun u hu => hholds u (List.mem_cons_of_mem t hu)) (Nat.le_of_succ_le_succ hfuel)

/-- **`slam_timer_list_find`** returns the first timer with the reference. -/
theorem listFind_spec {T : TimerNodes C} {ts : List (Timer C)} (h : T.Represents ts) (ref : ℤ) :
    T.listFind ref = some ((timerListFind ts ref).map Timer.id) :=
  findLoop_spec h.linked h.holds h.length_le

/-- Taking one of the timers out by its number. -/
theorem timerListRemoveByNode_append (us : List (Timer C)) {vs : List (Timer C)} {t : Timer C}
    (hnodup : ((us ++ t :: vs).map Timer.id).Nodup) :
    timerListRemoveByNode (us ++ t :: vs) t = us ++ vs := by
  rw [List.map_append, List.map_cons, List.nodup_append, List.nodup_cons] at hnodup
  obtain ⟨-, ⟨hvs, -⟩, hus⟩ := hnodup
  have hkeep : ∀ ws : List (Timer C), t.id ∉ ws.map Timer.id → ws.filter (fun u => u.id ≠ t.id) = ws := by
    intro ws hws
    refine List.filter_eq_self.2 ?_
    intro u hu
    exact decide_eq_true fun heq => hws (heq ▸ List.mem_map_of_mem hu)
  rw [timerListRemoveByNode, List.filter_append, List.filter_cons_of_neg (by simp),
    hkeep us fun hmem => hus _ hmem t.id (by simp) rfl, hkeep vs hvs]

theorem detach_spec {T : TimerNodes C} {us vs : List (Timer C)} {t : Timer C} {n : TimerNode C}
    (h : T.Represents (us ++ t :: vs)) (hn : T.node t.id = some n) :
    ∃ T', T.detach t.id n = some T' ∧ T'.Represents (us ++ vs) ∧ T.SameData T' := by
  obtain ⟨m, hm, -, hprev, hnext⟩ := h.at
  obtain rfl := Option.some.inj (hm.symm.trans hn)
  have hlinked := h.linked
  rw [List.map_append, List.map_cons] at hlinked
  have hlinksnext : T.links.next t.id = m.next := by simp [links, hn]
  have hrest : ∀ u ∈ us ++ vs, T.data u.id = some u := by
    intro u hu
    refine h.holds u ?_
    simp only [List.mem_append, List.mem_cons] at hu ⊢
    tauto
  have hafter : ∀ a ∈ m.next, (T.data a).isSome := by
    intro a ha
    rw [hnext] at ha
    obtain ⟨u, hu, rfl⟩ := List.mem_map.1 (List.mem_of_mem_head? ha)
    rw [hrest u (List.mem_append_right _ hu)]
    rfl
  rcases List.eq_nil_or_concat us with rfl | ⟨us, c, rfl⟩
  · have hhead : T.head = some t.id := hlinked.1
    obtain ⟨T₁, h₁, w₁⟩ := setPrev?_spec (T := { T with head := m.next }) (p := m.next) hafter none
    refine ⟨T₁, by rw [detach, if_pos hhead, h₁], ?_⟩
    refine Wrote.represents (T := T) ⟨w₁.links, w₁.head, w₁.allocated, w₁.data⟩ h ?_ hrest
    have hunlinked := Links.WellLinked.unlinkHead hlinked
    rwa [Links.unlinkHead, hlinksnext] at hunlinked
  · rw [List.concat_eq_append, List.map_append, List.append_assoc] at hlinked
    rw [List.concat_eq_append, List.map_append, List.map_singleton, Links.lastOr_concat] at hprev
    have hc : (T.data c.id).isSome := by
      rw [hrest c (by simp)]
      rfl
    obtain ⟨T₁, h₁, w₁⟩ := setNext_spec hc m.next
    obtain ⟨T₂, h₂, w₂⟩ := setPrev?_spec (T := T₁) (p := m.next) (by rw [w₁.data]; exact hafter)
      (some c.id)
    refine ⟨T₂, ?_, ?_⟩
    · simp only [detach, if_neg hlinked.head_ne, hprev, h₁, h₂, Option.bind_eq_bind, Option.bind_some]
    · refine Wrote.represents (T := T) ⟨w₂.links, w₂.head.trans w₁.head,
        w₂.allocated.trans w₁.allocated, w₂.data.trans w₁.data⟩ h ?_ hrest
      have hunlinked := Links.WellLinked.unlink hlinked
      rw [Links.unlink, hlinksnext] at hunlinked
      rw [w₁.links, List.concat_eq_append, List.append_assoc, List.map_append]
      exact hunlinked

/-- The memory outside the list may change. -/
theorem Represents.of_update {T : TimerNodes C} {ts : List (Timer C)} (h : T.Represents ts) {a : ℕ}
    (hgone : a ∉ ts.map Timer.id) (n : Option (TimerNode C)) {allocated : ℕ}
    (halloc : T.allocated ≤ allocated) (ha : n.isSome → a < allocated) :
    ({ T with node := Function.update T.node a n, allocated := allocated } : TimerNodes C).Represents ts := by
  have hne : ∀ b ∈ ts.map Timer.id, b ≠ a := fun b hb heq => hgone (heq ▸ hb)
  refine ⟨h.linked.congr ?_, ?_, ?_⟩
  · intro b hb
    simp [links, hne b hb]
  · intro u hu
    have hu' := h.holds u hu
    simpa only [data, Function.update_of_ne (hne u.id (List.mem_map_of_mem hu))] using hu'
  · intro b hb
    by_cases hba : b = a
    · subst hba
      exact ha (by simpa only [data, Function.update_self, Option.isSome_map] using hb)
    · refine (h.bound b ?_).trans_le halloc
      simpa only [data, Function.update_of_ne hba] using hb

theorem data_update_of {T : TimerNodes C} (a : ℕ) (n : Option (TimerNode C)) (allocated : ℕ) :
    ({ T with node := Function.update T.node a n, allocated := allocated } : TimerNodes C).data =
      Function.update T.data a (n.map fun n => n.timer a) := by
  funext b
  by_cases hb : b = a
  · subst hb
    simp only [data, Function.update_self]
  · simp only [data, Function.update_of_ne hb]

/-- `slam_timer_new` leaves the list alone. -/
theorem timerNew_spec {T : TimerNodes C} {ts : List (Timer C)} (h : T.Represents ts) (now interval : ℕ)
    (forever : Bool) (ref : ℤ) (ctx : C) :
    (T.timerNew now interval forever ref ctx).Represents ts ∧
      (T.timerNew now interval forever ref ctx).data =
        Function.update T.data T.allocated (some (Timer.new T.allocated now interval forever ref ctx)) := by
  refine ⟨h.of_update ?_ _ (Nat.le_succ _) fun _ => Nat.lt_succ_self _, data_update_of _ _ _⟩
  intro hmem
  obtain ⟨t, ht, hid⟩ := List.mem_map.1 hmem
  have hlt := h.bound t.id (by rw [h.holds t ht]; rfl)
  omega

/-- `slam_timer_delete` of a node that is not in the list. -/
theorem timerDelete_spec {T : TimerNodes C} {ts : List (Timer C)} (h : T.Represents ts) {a : ℕ}
    (ha : (T.data a).isSome) (hgone : a ∉ ts.map Timer.id) :
    ∃ T', T.timerDelete a = some T' ∧ T'.Represents ts ∧ T'.allocated = T.allocated ∧
      T'.data = Function.update T.data a none := by
  obtain ⟨n, hn⟩ := data_isSome.1 ha
  refine ⟨{ T with node := Function.update T.node a none }, ?_, h.of_update hgone none le_rfl nofun, rfl,
    data_update_of a none T.allocated⟩
  simp only [timerDelete, hn, Option.bind_eq_bind, Option.bind_some]

/-- Writing the expiry time of a node that is not in the list. -/
theorem setExpireTime_spec {T : TimerNodes C} {ts : List (Timer C)} {t : Timer C} (h : T.Represents ts)
    (ht : T.data t.id = some t) (hgone : t.id ∉ ts.map Timer.id) (expireTime : ℕ) :
    ∃ T', T.modify t.id (fun n => { n with expireTime := expireTime }) = some T' ∧ T'.Represents ts ∧
      T'.allocated = T.allocated ∧
      T'.data = Function.update T.data t.id (some { t with expireTime := expireTime }) := by
  obtain ⟨n, hn, htimer⟩ := Option.map_eq_some_iff.1 ht
  have hbound := h.bound t.id (by rw [ht]; rfl)
  refine ⟨{ T with node := Function.update T.node t.id (some { n with expireTime := expireTime }) }, ?_,
    h.of_update hgone _ le_rfl fun _ => hbound, rfl, ?_⟩
  · simp only [modify, hn, Option.bind_eq_bind, Option.bind_some]
  · refine (data_update_of t.id _ T.allocated).trans ?_
    rw [← htimer]
    rfl

/-- **`slam_timer_list_remove_by_node`** takes a timer of the list out, as the function on lists does,
and frees its node or leaves it. -/
theorem removeByNode_spec {T : TimerNodes C} {ts : List (Timer C)} {t : Timer C} (h : T.Represents ts)
    (ht : t ∈ ts) (removeTimer : Bool) :
    ∃ T', T.removeByNode t.id removeTimer = some T' ∧
      T'.Represents (timerListRemoveByNode ts t) ∧ T'.allocated = T.allocated ∧
      T'.data = if removeTimer then Function.update T.data t.id none else T.data := by
  obtain ⟨us, vs, rfl⟩ := List.append_of_mem ht
  obtain ⟨n, hn, -⟩ := h.node ht
  obtain ⟨T₁, h₁, hrep, hsame⟩ := detach_spec h hn
  have hnodup := h.nodup
  rw [timerListRemoveByNode_append us hnodup]
  simp only [removeByNode, hn, h₁, Option.bind_eq_bind, Option.bind_some]
  cases removeTimer with
  | false => exact ⟨T₁, rfl, hrep, hsame.allocated, hsame.data⟩
  | true =>
    have hgone : t.id ∉ (us ++ vs).map Timer.id := by
      simp only [List.map_append, List.map_cons] at hnodup ⊢
      exact (List.nodup_middle.1 hnodup).notMem
    obtain ⟨T₂, h₂, hrep', halloc, hdata⟩ := timerDelete_spec hrep
      (by rw [hsame.data, h.holds t ht]; rfl) hgone
    exact ⟨T₂, h₂, hrep', halloc.trans hsame.allocated, by rw [hdata, hsame.data]; rfl⟩

/-- `slam_timer_list_remove_by_ref`: nothing happens if there is no such timer. -/
theorem removeByRef_eq {T : TimerNodes C} {ts : List (Timer C)} (h : T.Represents ts) (ref : ℤ)
    (removeTimer : Bool) :
    T.removeByRef ref removeTimer =
      match timerListFind ts ref with
      | none => some T
      | some t => T.removeByNode t.id removeTimer := by
  rw [removeByRef, listFind_spec h, Option.bind_some]
  cases timerListFind ts ref <;> rfl

end TimerNodes
end Slam
