import Slam.Game.Growth
import Slam.Game.Items

/-!
# Adding items to a pack

`add_item` raises the number of a stack that is there and puts what is left into new stacks. A stack holds at most
`ItemBase.limit`, which is `max_overlap` or, where this is not positive, one.

`add_item` adds the number of the old stack to the number that is asked for, and then adds it once more. This does no
harm when the stack is filled up anyway: the clamp cuts off what is too much, and the rest is counted from the clamped
number. `Filled` says what the loop over the free slots does; the sums are compared at the end.
-/

namespace Slam.Game

open Raising

variable {env : Env} {e b : ℤ} {w w' : World}

/-! ### The number of a stack -/

/-- What a stack can hold. -/
def ItemBase.limit (base : ItemBase) : ℤ := if 0 < base.maxOverlap then base.maxOverlap else 1

theorem ItemBase.limit_pos (base : ItemBase) : 0 < base.limit := by
  unfold ItemBase.limit
  split_ifs <;> omega

theorem ItemBase.clampNumber_le_limit (base : ItemBase) (number : ℤ) : base.clampNumber number ≤ base.limit := by
  unfold ItemBase.clampNumber ItemBase.limit
  dsimp only
  split_ifs <;> omega

theorem ItemBase.clampNumber_of_pos (base : ItemBase) {number : ℤ} (h : 0 < number) :
    base.clampNumber number = min number base.limit := by
  unfold ItemBase.clampNumber ItemBase.limit
  dsimp only
  split_ifs <;> omega

theorem ItemBase.clampNumber_clampNumber (base : ItemBase) (number : ℤ) :
    base.clampNumber (base.clampNumber number) = base.clampNumber number := by
  unfold ItemBase.clampNumber
  dsimp only
  split_ifs <;> omega

theorem ItemBase.clampNumber_nonneg (base : ItemBase) (number : ℤ) : 0 ≤ base.clampNumber number := by
  unfold ItemBase.clampNumber
  dsimp only
  split_ifs <;> omega

/-- A stack that is empty or gets filled up takes what it can of `n`. -/
theorem ItemBase.raised_eq (base : ItemBase) {number n : ℤ} (hclamped : base.clampNumber number = number) (hn : 0 ≤ n)
    (h : number = 0 ∨ base.limit ≤ n + number) :
    base.clampNumber (number + (n + number)) - number = min n (base.limit - number) := by
  have hnonneg := base.clampNumber_nonneg number
  have hle := base.clampNumber_le_limit number
  rw [hclamped] at hnonneg hle
  rcases eq_or_lt_of_le (show 0 ≤ number + (n + number) by omega) with hzero | hpos
  · -- Nothing is there and nothing is added.
    obtain rfl : number = 0 := by omega
    rw [← hzero, hclamped]
    omega
  · rw [base.clampNumber_of_pos hpos]
    omega

/-! ### What adding should do -/

/-- The number of an item in a pack, over all its stacks. -/
def World.total (w : World) (e b : ℤ) : ℤ :=
  ((w.pack e).items.map fun i => if (w.itemAt i).baseid = b then (w.itemAt i).number else 0).sum

/-- The items of a pack are distinct and have been made, and the number of each was set through the clamp. -/
structure World.Tallied (w : World) (e : ℤ) : Prop where
  nodup : (w.pack e).items.Nodup
  made : ∀ i ∈ (w.pack e).items, i < w.nextItem
  clamped : ∀ i ∈ (w.pack e).items, (w.itemAt i).base.clampNumber (w.itemAt i).number = (w.itemAt i).number

/-- The stacks that can be made of a row with so many slots: a usable item gets one. -/
def ItemBase.newStacks (row : ItemBase) (slots : ℕ) : ℕ := if row.category = .usable then min slots 1 else slots

/-- What the stack that is there and the free slots can hold. -/
def World.room (w : World) (env : Env) (e b : ℤ) (row : ItemBase) : ℤ :=
  (match w.findItemByBaseid env e b with
    | none => 0
    | some i => (w.itemAt i).base.limit - (w.itemAt i).number) + row.newStacks (w.freeSlots e) * row.limit

/-- `n` items of base id `b` were added: at most so many, all of them if there is room, each stack within its limit,
and all else as it was. -/
structure AddsUp (env : Env) (e b n : ℤ) (row : ItemBase) (w w' : World) : Prop where
  total_le : w'.total e b ≤ w.total e b + n
  total_eq : n ≤ w.room env e b row → w'.total e b = w.total e b + n
  limit : ∀ i ∈ (w'.pack e).items, (w'.itemAt i).number ≤ (w'.itemAt i).base.limit
  items : ∀ i < w.nextItem, (i ∈ (w'.pack e).items ↔ i ∈ (w.pack e).items)
  others : ∀ i < w.nextItem, (i ∉ (w.pack e).items ∨ (w.itemAt i).baseid ≠ b) → w'.itemAt i = w.itemAt i
  packs : ∀ d ≠ e, w'.pack d = w.pack d

/-! ### New stacks -/

/-- Only new stacks of the item came to the pack, with `added` in them. -/
structure Filled (w w' : World) (e b added : ℤ) : Prop where
  tallied : w'.Tallied e
  newStacks : ∃ new, (w'.pack e).items = (w.pack e).items ++ new ∧ (∀ i ∈ new, w.nextItem ≤ i ∧ (w'.itemAt i).baseid = b) ∧
    (new.map fun i => (w'.itemAt i).number).sum = added
  itemAt : ∀ i < w.nextItem, w'.itemAt i = w.itemAt i
  nextItem : w.nextItem ≤ w'.nextItem
  packs : ∀ d ≠ e, w'.pack d = w.pack d

/-- The pack with one more item. -/
def Pack.withItem (p : Pack) (i : ℤ) : Pack := { p with items := p.items ++ [i] }

namespace Filled

theorem refl (h : w.Tallied e) : Filled w w e b 0 :=
  ⟨h, ⟨[], by simp, by simp, rfl⟩, fun _ _ => rfl, le_rfl, fun _ _ => rfl⟩

theorem trans {w'' : World} {m n : ℤ} (h : Filled w w' e b m) (h' : Filled w' w'' e b n) : Filled w w'' e b (m + n) := by
  obtain ⟨new, hitems, hnew, hsum⟩ := h.newStacks
  obtain ⟨new', hitems', hnew', hsum'⟩ := h'.newStacks
  -- The stacks made first are older than those made then.
  have hsame : ∀ i ∈ new, w''.itemAt i = w'.itemAt i := fun i hi => by
    refine h'.itemAt i (h.tallied.made i ?_)
    rw [hitems]
    exact List.mem_append_right _ hi
  refine ⟨h'.tallied, ⟨new ++ new', ?_, ?_, ?_⟩, fun i hi => ?_, h.nextItem.trans h'.nextItem, fun d hd => ?_⟩
  · rw [hitems', hitems, List.append_assoc]
  · intro i hi
    rcases List.mem_append.1 hi with hi | hi
    · rw [hsame i hi]
      exact hnew i hi
    · exact ⟨h.nextItem.trans (hnew' i hi).1, (hnew' i hi).2⟩
  · rw [List.map_append, List.sum_append, hsum', List.map_congr_left fun i hi => by rw [hsame i hi], hsum]
  · rw [h'.itemAt i (hi.trans_le h.nextItem), h.itemAt i hi]
  · rw [h'.packs d hd, h.packs d hd]

theorem total_eq {added : ℤ} (hw : w.Tallied e) (h : Filled w w' e b added) : w'.total e b = w.total e b + added := by
  obtain ⟨new, hitems, hnew, hsum⟩ := h.newStacks
  rw [World.total, World.total, hitems, List.map_append, List.sum_append]
  congr 1
  · exact congrArg List.sum (List.map_congr_left fun i hi => by rw [h.itemAt i (hw.made i hi)])
  · rw [← hsum]
    exact congrArg List.sum (List.map_congr_left fun i hi => if_pos (hnew i hi).2)

/-- The calls of the host do not matter. -/
theorem tell {added : ℤ} (h : Filled w w' e b added) (calls : List ClientCall) : Filled w (w'.tell calls) e b added :=
  ⟨⟨h.tallied.nodup, h.tallied.made, h.tallied.clamped⟩, h.newStacks, h.itemAt, h.nextItem, h.packs⟩

/-- One stack is put into the pack. -/
theorem newItem (hw : w.Tallied e) (row : ItemBase) (number : ℤ) :
    Filled w ((w.newItem (row.item b number)).setPack e ((w.pack e).withItem w.nextItem)) e b (row.clampNumber number) := by
  have hnew : w.nextItem ∉ (w.pack e).items := fun hmem => absurd (hw.made _ hmem) (lt_irrefl _)
  have hitem := w.itemAt_newItem (row.item b number)
  have hold : ∀ i < w.nextItem, (w.newItem (row.item b number)).itemAt i = w.itemAt i :=
    (Grown.newItem w (row.item b number)).itemAt
  refine ⟨⟨?_, ?_, ?_⟩, ⟨[w.nextItem], ?_, ?_, ?_⟩, hold, ?_, fun d hd => World.pack_setPack_of_ne _ hd _⟩
  · rw [World.pack_setPack_self]
    exact List.nodup_append.2 ⟨hw.nodup, List.nodup_singleton _, fun i hi j hj hij => hnew (by
      rwa [← List.mem_singleton.1 hj, ← hij])⟩
  · rw [World.pack_setPack_self]
    intro i hi
    show i < w.nextItem + 1
    rcases List.mem_append.1 hi with hi | hi
    · exact (hw.made i hi).trans (lt_add_one _)
    · rw [List.mem_singleton.1 hi]
      exact lt_add_one _
  · rw [World.pack_setPack_self]
    intro i hi
    show ((w.newItem (row.item b number)).itemAt i).base.clampNumber ((w.newItem (row.item b number)).itemAt i).number =
      ((w.newItem (row.item b number)).itemAt i).number
    rcases List.mem_append.1 hi with hi | hi
    · rw [hold i (hw.made i hi)]
      exact hw.clamped i hi
    · rw [List.mem_singleton.1 hi, hitem]
      exact row.clampNumber_clampNumber number
  · rw [World.pack_setPack_self]
    rfl
  · intro i hi
    rw [List.mem_singleton.1 hi]
    exact ⟨le_rfl, congrArg Item.baseid hitem⟩
  · rw [List.map_singleton, List.sum_singleton]
    exact congrArg Item.number hitem
  · show w.nextItem ≤ w.nextItem + 1
    omega

end Filled

/-- The loop fills the free slots with what is left. -/
theorem addItemLoop_filled {row : ItemBase} (hrow : env.itemTable b = some row) (hscript : row.scriptFunc.isSome) (slots : ℕ)
    (number : ℤ) (hw : w.Tallied e) : ∃ w', addItemLoop env e b slots number w = .ok () w' ∧
      Filled w w' e b (min (max number 0) (row.newStacks slots * row.limit)) := by
  have hlimit := row.limit_pos
  induction slots generalizing w number with
  | zero =>
    have hnone : min (max number 0) (row.newStacks 0 * row.limit) = 0 := by simp [ItemBase.newStacks]
    rw [hnone]
    exact ⟨w, rfl, .refl hw⟩
  | succ slots ih =>
    by_cases hpos : 0 < number
    · -- One more stack, with as much as it can hold.
      have hnew : w.nextItem ∉ ((w.newItem (row.item b number)).pack e).items := fun hmem =>
        absurd (hw.made _ hmem) (lt_irrefl _)
      have hfilled := (Filled.newItem (b := b) hw row number).tell [.bagAddItem e w.nextItem]
      set u := ((w.newItem (row.item b number)).setPack e ((w.pack e).withItem w.nextItem)).tell [.bagAddItem e w.nextItem]
      have hitem : u.itemAt w.nextItem = row.item b number := w.itemAt_newItem _
      have hstep : addItemLoop env e b (slots + 1) number w =
          (if row.category ≠ .usable then addItemLoop env e b slots (number - row.clampNumber number) else pure ()) u := by
        rw [addItemLoop, if_pos hpos, bind_of_ok (itemNew_apply hrow hscript number w)]
        show (assertion (w.nextItem ∉ ((w.newItem (row.item b number)).pack e).items) .addItem >>= _ : Run Unit) _ = _
        rw [bind_of_ok (assertion_apply hnew .addItem)]
        show (if (u.itemAt w.nextItem).base.category ≠ .usable then
          addItemLoop env e b slots (number - (u.itemAt w.nextItem).number) else pure () : Run Unit) u = _
        rw [hitem]
        rfl
      rw [hstep]
      rw [row.clampNumber_of_pos hpos] at hfilled ⊢
      by_cases husable : row.category = .usable
      · refine ⟨u, by rw [if_neg (not_not.2 husable)]; rfl, ?_⟩
        have hall : min (max number 0) (row.newStacks (slots + 1) * row.limit) = min number row.limit := by
          rw [ItemBase.newStacks, if_pos husable, max_eq_left hpos.le, min_eq_right (Nat.le_add_left 1 slots), Nat.cast_one,
            one_mul]
        rwa [hall]
      · obtain ⟨w', hrest, hfilled'⟩ := ih (number - min number row.limit) hfilled.tallied
        refine ⟨w', by rw [if_pos husable, hrest], ?_⟩
        have hall : min (max number 0) (row.newStacks (slots + 1) * row.limit) = min number row.limit +
            min (max (number - min number row.limit) 0) (row.newStacks slots * row.limit) := by
          rw [ItemBase.newStacks, ItemBase.newStacks, if_neg husable, if_neg husable, max_eq_left hpos.le, Nat.cast_add,
            Nat.cast_one, add_mul, one_mul]
          have hslots : 0 ≤ (slots : ℤ) * row.limit := by positivity
          omega
        rw [hall]
        exact hfilled.trans hfilled'
    · refine ⟨w, by rw [addItemLoop, if_neg hpos]; rfl, ?_⟩
      have hnone : min (max number 0) (row.newStacks (slots + 1) * row.limit) = 0 := by
        rw [max_eq_right (not_lt.1 hpos)]
        exact min_eq_left (by positivity)
      rw [hnone]
      exact .refl hw

/-! ### The stack that is there -/

theorem World.itemAt_setNumber_self (w : World) (i number : ℤ) :
    (w.setNumber i number).itemAt i = { w.itemAt i with number := (w.itemAt i).base.clampNumber number } :=
  Function.update_self ..

theorem World.itemAt_setNumber_of_ne (w : World) {i j : ℤ} (h : j ≠ i) (number : ℤ) :
    (w.setNumber i number).itemAt j = w.itemAt j := Function.update_of_ne h ..

theorem World.Tallied.setNumber (h : w.Tallied e) (i number : ℤ) : (w.setNumber i number).Tallied e := by
  refine ⟨h.nodup, h.made, fun j hj => ?_⟩
  by_cases hji : j = i
  · subst hji
    rw [World.itemAt_setNumber_self]
    exact (w.itemAt j).base.clampNumber_clampNumber number
  · rw [World.itemAt_setNumber_of_ne w hji]
    exact h.clamped j hj

/-- Two sums over distinct keys that differ at one of them. -/
theorem sum_map_of_eq_off {l : List ℤ} (hnodup : l.Nodup) {i : ℤ} (hi : i ∈ l) {f g : ℤ → ℤ} (h : ∀ j ≠ i, f j = g j) :
    (l.map f).sum = (l.map g).sum + (f i - g i) := by
  have hrest : (l.erase i).map f = (l.erase i).map g :=
    List.map_congr_left fun j hj => h j fun hji => hnodup.not_mem_erase (hji ▸ hj)
  rw [← List.sum_map_erase f hi, ← List.sum_map_erase g hi, hrest]
  ring

/-- A change of one stack changes the total by as much. -/
theorem World.Tallied.total_setNumber (h : w.Tallied e) {i : ℤ} (hi : i ∈ (w.pack e).items) (hbaseid : (w.itemAt i).baseid = b)
    (number : ℤ) : (w.setNumber i number).total e b =
      w.total e b + ((w.itemAt i).base.clampNumber number - (w.itemAt i).number) := by
  have hsum := sum_map_of_eq_off h.nodup hi
    (f := fun j => if ((w.setNumber i number).itemAt j).baseid = b then ((w.setNumber i number).itemAt j).number else 0)
    (g := fun j => if (w.itemAt j).baseid = b then (w.itemAt j).number else 0)
    fun j hji => by rw [w.itemAt_setNumber_of_ne hji]
  rw [World.itemAt_setNumber_self, if_pos hbaseid, if_pos hbaseid] at hsum
  exact hsum

theorem addItem_of_none (h : w.findItemByBaseid env e b = none) (n : ℤ) :
    addItem env e b n w = addItemLoop env e b (w.freeSlots e) n w := by
  show (match w.findItemByBaseid env e b with | none => _ | some i => _ : Run Unit) w = _
  rw [h]

/-- The number of the stack is added to the number that is asked for, and once more to the stack. -/
theorem addItem_of_some {i : ℤ} (h : w.findItemByBaseid env e b = some i) (n : ℤ) :
    addItem env e b n w = addItemLoop env e b (w.freeSlots e)
      (n + (w.itemAt i).number - (w.itemAt i).base.clampNumber ((w.itemAt i).number + (n + (w.itemAt i).number)))
      ((w.setNumber i ((w.itemAt i).number + (n + (w.itemAt i).number))).tell
        [.bagSetItemNumber e i ((w.itemAt i).base.clampNumber ((w.itemAt i).number + (n + (w.itemAt i).number)))]) := by
  show (match w.findItemByBaseid env e b with | none => _ | some i => _ : Run Unit) w = _
  rw [h]
  show addItemLoop env e b (w.freeSlots e) (n + (w.itemAt i).number -
      ((w.setNumber i ((w.itemAt i).number + (n + (w.itemAt i).number))).itemAt i).number)
      ((w.setNumber i ((w.itemAt i).number + (n + (w.itemAt i).number))).tell [.bagSetItemNumber e i
        ((w.setNumber i ((w.itemAt i).number + (n + (w.itemAt i).number))).itemAt i).number]) = _
  rw [World.itemAt_setNumber_self]

theorem mem_of_findItemByBaseid {i : ℤ} (h : w.findItemByBaseid env e b = some i) :
    i ∈ (w.pack e).items ∧ (w.itemAt i).baseid = b :=
  ⟨env.mem_pairs.1 (List.mem_of_find?_eq_some h), by simpa using List.find?_some h⟩

/-! ### When adding adds up -/

/-- What two places take one after the other is what they take together. -/
theorem min_add_min_left {n r s : ℤ} (hs : 0 ≤ s) :
    min n r + min (max (n - min n r) 0) s = min n (r + s) := by
  omega

/-- What `add_item` does as a whole: `raised` more in the stack that is there, and new stacks. -/
theorem addItem_ok {row : ItemBase} (hrow : env.itemTable b = some row) (hscript : row.scriptFunc.isSome) (hw : w.Tallied e)
    (n : ℤ) : ∃ w' raised left, addItem env e b n w = .ok () w' ∧
      w'.total e b = w.total e b + raised + min (max left 0) (row.newStacks (w.freeSlots e) * row.limit) ∧
      (w.findItemByBaseid env e b = none → raised = 0 ∧ left = n) ∧
      (∀ i, w.findItemByBaseid env e b = some i →
        raised = (w.itemAt i).base.clampNumber ((w.itemAt i).number + (n + (w.itemAt i).number)) - (w.itemAt i).number ∧
        left = n - raised) ∧
      w'.Tallied e ∧ (∀ i < w.nextItem, (i ∈ (w'.pack e).items ↔ i ∈ (w.pack e).items)) ∧
      (∀ i < w.nextItem, (i ∉ (w.pack e).items ∨ (w.itemAt i).baseid ≠ b) → w'.itemAt i = w.itemAt i) ∧
      ∀ d ≠ e, w'.pack d = w.pack d := by
  have hmem : ∀ {u u' : World} {added : ℤ}, Filled u u' e b added → ∀ i < u.nextItem,
      (i ∈ (u'.pack e).items ↔ i ∈ (u.pack e).items) := by
    intro u u' added hfilled i hi
    obtain ⟨new, hitems, hnew, -⟩ := hfilled.newStacks
    rw [hitems, List.mem_append, or_iff_left fun hin => absurd (hnew i hin).1 (not_le.2 hi)]
  cases hfind : w.findItemByBaseid env e b with
  | none =>
    obtain ⟨w', hrun, hfilled⟩ := addItemLoop_filled hrow hscript (w.freeSlots e) n hw
    refine ⟨w', 0, n, ?_, ?_, fun _ => ⟨rfl, rfl⟩, nofun, hfilled.tallied, hmem hfilled, fun i hi _ => hfilled.itemAt i hi,
      hfilled.packs⟩
    · rw [addItem_of_none hfind, hrun]
    · rw [hfilled.total_eq hw, add_zero]
  | some i =>
    obtain ⟨hi, hbaseid⟩ := mem_of_findItemByBaseid hfind
    set now := (w.itemAt i).base.clampNumber ((w.itemAt i).number + (n + (w.itemAt i).number))
    set u := (w.setNumber i ((w.itemAt i).number + (n + (w.itemAt i).number))).tell [.bagSetItemNumber e i now]
    have hu : u.Tallied e := by
      have hset := hw.setNumber i ((w.itemAt i).number + (n + (w.itemAt i).number))
      exact ⟨hset.nodup, hset.made, hset.clamped⟩
    obtain ⟨w', hrun, hfilled⟩ := addItemLoop_filled hrow hscript (w.freeSlots e) (n + (w.itemAt i).number - now) hu
    refine ⟨w', now - (w.itemAt i).number, n + (w.itemAt i).number - now, ?_, ?_, nofun, ?_, hfilled.tallied,
      hmem (u := u) hfilled, fun j hj hother => ?_, hfilled.packs⟩
    · rw [addItem_of_some hfind, hrun]
    · rw [hfilled.total_eq hu]
      congr 1
      exact hw.total_setNumber hi hbaseid _
    · intro j hj
      cases hj
      exact ⟨rfl, by ring⟩
    · rw [hfilled.itemAt j hj]
      refine w.itemAt_setNumber_of_ne ?_ _
      rintro rfl
      exact hother.elim (fun hnot => hnot hi) fun hne => hne hbaseid

/-- **Adding items conserves their quantity exactly if the stack that is there is empty or gets filled up.** For every
pack, every row and every number: `add_item` returns, and it adds at most `n`, all of `n` if there is room, keeps to
the limits and leaves all else as it was, if and only if there is no stack of the item, or the one that is found has
number zero, or `n` and its number reach its limit. -/
theorem addItem_addsUp_iff {row : ItemBase} (hrow : env.itemTable b = some row) (hscript : row.scriptFunc.isSome)
    (hw : w.Tallied e) {n : ℤ} (hn : 0 ≤ n) :
    (∃ w', addItem env e b n w = .ok () w' ∧ AddsUp env e b n row w w') ↔
      ∀ i, w.findItemByBaseid env e b = some i →
        (w.itemAt i).number = 0 ∨ (w.itemAt i).base.limit ≤ n + (w.itemAt i).number := by
  obtain ⟨w', raised, left, hrun, htotal, hnone, hsome, htallied, hitems, hothers, hpacks⟩ := addItem_ok hrow hscript hw n
  have hslots : 0 ≤ (row.newStacks (w.freeSlots e) : ℤ) * row.limit := by
    have := row.limit_pos
    positivity
  constructor
  · rintro ⟨w'', hrun', hadds⟩ i hi
    rw [hrun] at hrun'
    cases hrun'
    have hle := hadds.total_le
    obtain ⟨hraised, hleft⟩ := hsome i hi
    have hclamped := hw.clamped i (mem_of_findItemByBaseid hi).1
    have hnonneg := (w.itemAt i).base.clampNumber_nonneg (w.itemAt i).number
    rw [hclamped] at hnonneg
    by_contra hnot
    rw [not_or, not_le] at hnot
    -- The stack is raised by its own number too many.
    rw [(w.itemAt i).base.clampNumber_of_pos (by omega)] at hraised
    omega
  · intro hcond
    -- The stack takes what it can, and the new stacks what is left.
    have hgrowth : w'.total e b = w.total e b + min n (w.room env e b row) := by
      rw [htotal, World.room]
      cases hfind : w.findItemByBaseid env e b with
      | none =>
        obtain ⟨hraised, hleft⟩ := hnone hfind
        dsimp only
        omega
      | some i =>
        obtain ⟨hraised, hleft⟩ := hsome i hfind
        have hclamped := hw.clamped i (mem_of_findItemByBaseid hfind).1
        have hfilled := (w.itemAt i).base.raised_eq hclamped hn (hcond i hfind)
        rw [hleft, hraised, hfilled, add_assoc]
        congr 1
        exact min_add_min_left hslots
    refine ⟨w', hrun, ?_, ?_, ?_, hitems, hothers, hpacks⟩
    · omega
    · intro hroom
      rw [hgrowth, min_eq_left hroom]
    · intro i hi
      rw [← htallied.clamped i hi]
      exact (w'.itemAt i).base.clampNumber_le_limit _

/-- Arrows, of which a stack holds five. -/
def arrowEnv : Env := { plainEnv with itemTable := fun _ => some { maxOverlap := 5 } }

/-- A pack with one stack of three arrows. -/
def arrowWorld : World where
  entityAt _ := { pack := { items := [7] } }
  itemAt _ := { baseid := 6, base := { maxOverlap := 5 }, number := 3, useTimes := 0 }
  nextItem := 8

theorem arrowWorld_tallied : arrowWorld.Tallied 1 := ⟨by decide, by decide, by decide⟩

/-- Four more arrows fill the stack, and two of them go into a new one. -/
theorem addItem_addsUp_four : ∃ w', addItem arrowEnv 1 6 4 arrowWorld = .ok () w' ∧
    AddsUp arrowEnv 1 6 4 { maxOverlap := 5 } arrowWorld w' := by
  refine (addItem_addsUp_iff rfl rfl arrowWorld_tallied (by decide)).2 fun i hi => .inr ?_
  obtain rfl : 7 = i := Option.some.inj hi
  decide

/-- One more arrow adds two. -/
theorem not_addItem_addsUp_one : ¬ ∃ w', addItem arrowEnv 1 6 1 arrowWorld = .ok () w' ∧
    AddsUp arrowEnv 1 6 1 { maxOverlap := 5 } arrowWorld w' := by
  rintro ⟨w', hrun, hadds⟩
  have hbefore : arrowWorld.total 1 6 = 3 := by decide
  have hafter : (endState (addItem arrowEnv 1 6 1) arrowWorld).total 1 6 = 5 := by decide
  rw [endState_of_ok hrun] at hafter
  have hle := hadds.total_le
  omega

end Slam.Game
