import Slam.Game.Conservation
import Slam.Game.Event
import Slam.Game.Growth
import Slam.Game.Inventory
import Slam.Game.Items
import Slam.Lib.Machine

/-!
# Items used in a match

`enter_match` puts the pack of an entity aside and gives it copies of its items, which have not been used
before. `exit_match` brings the pack back as it was, with the hit points of the match. So what is used in a
match is there again afterwards, as often as it was, and the number of times that an item may be used
begins anew with every match. `consumption_survives_iff` says that consumption survives a sequence of
matches exactly if nothing is used in them.
-/

namespace Slam.Game

open Raising Track

variable {env : Env} {fuel : ℕ} {e : ℤ}

/-! ### Matches and what is used in them -/

/-- The world in which a call returns. -/
def returned {α : Type} (x : Run α) (w : World) : Option World :=
  match x w with
  | .ok _ w' => some w'
  | .error _ _ => none

/-- A request returns true. -/
def Succeeds (x : Run Bool) (w : World) : Prop := wp x (fun rc _ => rc = true) (fun _ _ => False) w

instance (x : Run Bool) (w : World) : Decidable (Succeeds x w) := inferInstanceAs (Decidable (wp ..))

/-- The entity asks to use items, one after the other. -/
def useMachine (env : Env) (fuel : ℕ) (e : ℤ) : Machine World ℤ where
  step w i := some (endState (copyUseItem env (perform env fuel) e i) w)

/-- The items that are used with success, each as it is before. -/
def successes (env : Env) (fuel : ℕ) (e : ℤ) : World → List ℤ → List (ℤ × Item)
  | _, [] => []
  | w, i :: uses =>
    let rest := successes env fuel e (endState (copyUseItem env (perform env fuel) e i) w) uses
    if Succeeds (copyUseItem env (perform env fuel) e i) w then (i, w.itemAt i) :: rest else rest

/-- The entity enters a match, asks to use items and leaves the match. -/
def playMachine (env : Env) (fuel : ℕ) (e : ℤ) : Machine World (List ℤ) where
  step w uses := (returned (enterMatch env (perform env fuel) fuel e) w).bind fun w₁ =>
    ((useMachine env fuel e).run w₁ uses).bind (returned (exitMatch env e))

/-- What is used with success in a match. -/
def matchSuccesses (env : Env) (fuel : ℕ) (e : ℤ) (w : World) (uses : List ℤ) : List (ℤ × Item) :=
  match returned (enterMatch env (perform env fuel) fuel e) w with
  | none => []
  | some w₁ => successes env fuel e w₁ uses

/-- The items of the pack with their copies in a match. -/
def copies (env : Env) (fuel : ℕ) (e : ℤ) (w : World) : List (ℤ × ℤ) :=
  match returned (enterMatch env (perform env fuel) fuel e) w with
  | none => []
  | some w₁ => (w₁.pack e).items.zip (env.pairs (w.pack e).items)

/-- How often the copies of an item are used with success in a sequence of matches. -/
def totalUses (env : Env) (fuel : ℕ) (e i : ℤ) : World → List (List ℤ) → ℕ
  | _, [] => 0
  | w, uses :: rest =>
    let here := (matchSuccesses env fuel e w uses).countP fun x => (copies env fuel e w).lookup x.1 = some i
    match (playMachine env fuel e).step w uses with
    | none => here
    | some w' => here + totalUses env fuel e i w' rest

/-- After the match there are as many items of each kind as before it, less those used in it. -/
def Charged (env : Env) (fuel : ℕ) (e : ℤ) (w : World) (uses : List ℤ) : Prop :=
  ∀ w', (playMachine env fuel e).step w uses = some w' → ∀ baseid, w'.itemCount e baseid =
    w.itemCount e baseid - (matchSuccesses env fuel e w uses).countP fun x => x.2.baseid = baseid

/-- Consumption survives a sequence of matches: each of them is charged, and no item is used more often
than it may be. -/
def ConsumptionSurvives (env : Env) (fuel : ℕ) (e : ℤ) (w : World) (plays : List (List ℤ)) : Prop :=
  (playMachine env fuel e).Guarded (Charged env fuel e) w plays ∧
  ∀ i ∈ (w.pack e).items, (w.itemAt i).base.consumableTimes ≠ 0 →
    totalUses env fuel e i w plays ≤ (w.itemAt i).base.consumableTimes.toNat

/-- The entity can use the item: it is a living member of the scene and has the item, the span and the
use times allow it, and there is one left, or a free slot for it. -/
def World.CanUse (w : World) (env : Env) (fuel : ℕ) (e i : ℤ) : Prop :=
  (∃ s, w.scene = some s ∧ e ∈ s.members) ∧ (w.entityAt e).death = false ∧ i ∈ (w.pack e).items ∧
    w.refusesItem e i = false ∧
    match (w.itemAt i).base.category with
    | .usable => 1 ≤ (w.itemAt i).number ∧ Returns (do
        removeItem e i 1
        callItemScript env (perform env fuel) (w.itemAt i).base.scriptFunc e i) w
    | .equipable => ((w.pack e).equips.length : ℤ) < (w.entityAt e).base.maxEquipSlots ∧
        ∀ j, (w.pack e).equips.lookup ((w.pack e).equips.length + 1 : ℤ) = some j → j ∉ (w.pack e).items
    | .material => True
    | .none => False

/-- Nothing that could be used is asked for in the match. -/
def Idle (env : Env) (fuel : ℕ) (e : ℤ) (w : World) (uses : List ℤ) : Prop :=
  ∀ w₁, returned (enterMatch env (perform env fuel) fuel e) w = some w₁ →
    (useMachine env fuel e).Guarded (fun u i => ¬ u.CanUse env fuel e i) w₁ uses

/-! ### When a use succeeds -/

theorem succeeds_useUsable (act : Act → Run Unit) (e i : ℤ) (item : Item) (w : World) :
    Succeeds (useUsable env act e i item) w ↔ 1 ≤ item.number ∧ Returns (do
      removeItem e i 1
      callItemScript env act item.base.scriptFunc e i) w := by
  rw [Succeeds, useUsable, wp_ite, Returns]
  simp only [wp_pure, Bool.false_eq_true, imp_false, not_lt]
  refine and_congr_right fun hnumber => (forall_prop_of_true hnumber).trans ?_
  rw [wp_bind, wp_bind]
  constructor
  · intro h
    refine wp_mono h (fun _ u hu => ?_) fun _ _ h => h
    rw [wp_bind] at hu
    exact wp_mono hu (fun _ _ _ => trivial) fun _ _ h => h
  · intro h
    refine wp_mono h (fun _ u hu => ?_) fun _ _ h => h
    rw [wp_bind]
    exact wp_mono hu (fun _ _ _ => rfl) fun _ _ h => h

theorem succeeds_useEquipable {e i : ℤ} {w : World} (hi : i ∈ (w.pack e).items)
    (hcategory : (w.itemAt i).base.category = .equipable) :
    Succeeds (useEquipable e i) w ↔ ((w.pack e).equips.length : ℤ) < (w.entityAt e).base.maxEquipSlots ∧
      ∀ j, (w.pack e).equips.lookup ((w.pack e).equips.length + 1 : ℤ) = some j → j ∉ (w.pack e).items := by
  rw [Succeeds, useEquipable, wp_bind, wp_get, wp_ite]
  simp only [wp_bind, wp_pure, Bool.false_eq_true, imp_false, not_le]
  refine and_congr_right fun hroom => ?_
  rw [forall_prop_of_true hroom]
  constructor
  · intro hok j hlookup hj
    have hraise : wp (addEquip e i ((w.pack e).equips.length + 1)) (fun _ _ => False) (fun _ _ => True) w := by
      refine wp_addEquip hi hcategory (fun hfree => ?_) (fun j' hlookup' hj' => ?_) fun _ _ _ => trivial
      · rw [hlookup] at hfree
        cases hfree
      · rw [hlookup] at hlookup'
        cases hlookup'
        exact hj' hj
    obtain ⟨f, t, herror, -⟩ := exists_error_of_wp hraise
    exact (wp_error herror).1 hok
  · exact fun h => wp_addEquip hi hcategory (fun _ => rfl) (fun _ _ _ => rfl) fun j hlookup hj => h j hlookup hj

theorem succeeds_copyUseItem (env : Env) (fuel : ℕ) (e i : ℤ) (w : World) :
    Succeeds (copyUseItem env (perform env fuel) e i) w ↔ w.CanUse env fuel e i := by
  rw [Succeeds, copyUseItem, wp_bind, wp_get, World.CanUse]
  cases hscene : w.scene with
  | none => simp
  | some s =>
    simp only [wp_ite, wp_pure, Bool.false_eq_true, imp_false, not_not, Option.some.injEq, exists_eq_left']
    refine and_congr_right fun hmem => ?_
    rw [forall_prop_of_true hmem, useItem, wp_bind, wp_get]
    simp only [wp_ite, wp_pure, wp_bind, wp_throw, Bool.false_eq_true, imp_false, not_not, Bool.not_eq_true]
    refine and_congr_right fun hdeath => ?_
    rw [forall_prop_of_true hdeath]
    refine and_congr_right fun hi => ?_
    rw [forall_prop_of_true hi]
    refine and_congr_right fun hrefused => ?_
    rw [forall_prop_of_true hrefused]
    cases hcategory : (w.itemAt i).base.category with
    | usable => exact succeeds_useUsable _ e i _ w
    | equipable => exact succeeds_useEquipable hi hcategory
    | material => simp
    | none => simp

/-! ### A pack put aside -/

/-- The entity has put the pack `b` aside for a match, whose items are in no pack and are as they were. -/
structure World.Shelved (w : World) (e : ℤ) (b : Pack) (item : ℤ → Item) : Prop where
  backup : (w.entityAt e).backup = some b
  span : (w.pack e).span = .match
  items : ∀ i ∈ b.items, i < w.nextItem ∧ w.Unowned i ∧ w.itemAt i = item i
  equips : ∀ x ∈ (w.pack e).equips, x.2 ∉ b.items

/-- The pack stays aside. -/
def shelfTrack (e : ℤ) (b : Pack) (item : ℤ → Item) : Track Fault World where
  ok w w' := w.Shelved e b item → w'.Shelved e b item
  error _ w w' := w.Shelved e b item → w'.Shelved e b item
  refl _ := id
  trans h h' := h' ∘ h
  trans_error h h' := h' ∘ h

section Shelf

variable {b : Pack} {item : ℤ → Item} {α : Type} {w w' : World}

namespace World.Shelved

theorem inventory (h : w.Shelved e b item) (hw : Inventory true w w') : w'.Shelved e b item where
  backup := (hw.backup e).trans h.backup
  span := (hw.span e).trans h.span
  items i hi := by
    obtain ⟨hlt, hunowned, hsame⟩ := h.items i hi
    obtain ⟨hunowned', hsame'⟩ := hw.unowned i hlt hunowned
    exact ⟨hlt.trans_le hw.nextItem, hunowned', hsame'.trans hsame⟩
  equips := by
    rw [hw.equips e]
    exact h.equips

/-- An item of some pack is none of those that are put aside. -/
theorem notMem (h : w.Shelved e b item) {j i : ℤ} (hi : i ∈ (w.pack j).items) : i ∉ b.items :=
  fun hmem => (h.items i hmem).2.1 j hi

theorem setItem (h : w.Shelved e b item) {i : ℤ} (hi : i ∉ b.items) (x : Item) : (w.setItem i x).Shelved e b item :=
  { h with
    items := fun j hj => by
      obtain ⟨hlt, hunowned, hsame⟩ := h.items j hj
      have hne : j ≠ i := fun hji => hi (hji ▸ hj)
      exact ⟨hlt, hunowned, by simpa [World.setItem, hne] using hsame⟩ }

/-- The pack of the match may change, as long as it gets none of the items that are put aside. -/
theorem setPack (h : w.Shelved e b item) {p : Pack} (hspan : p.span = (w.pack e).span)
    (hitems : ∀ i ∈ p.items, i ∉ b.items) (hequips : ∀ x ∈ p.equips, x.2 ∉ b.items) :
    (w.setPack e p).Shelved e b item where
  backup := by rw [World.backup_setPack]; exact h.backup
  span := by rw [World.pack_setPack_self, hspan]; exact h.span
  items i hi := by
    obtain ⟨hlt, hunowned, hsame⟩ := h.items i hi
    refine ⟨hlt, fun j hmem => ?_, hsame⟩
    by_cases hj : j = e
    · subst hj
      rw [World.pack_setPack_self] at hmem
      exact hitems i hmem hi
    · rw [World.pack_setPack_of_ne w hj] at hmem
      exact hunowned j hmem
  equips := by rw [World.pack_setPack_self]; exact hequips

end World.Shelved

theorem shelf_of_inventory {x : Run α} (h : (inventoryTrack true).Follows x) : (shelfTrack e b item).Follows x :=
  h.mono (fun _ _ h hw => hw.inventory h) fun _ _ _ h hw => hw.inventory h

theorem shelf_of_quiet {x : Run α} (h : quietTrack.Follows x) : (shelfTrack e b item).Follows x :=
  h.mono (fun _ _ hq hw => hw.inventory (.of_quiet hq)) fun _ _ _ hq hw => hw.inventory (.of_quiet hq.1)

theorem shelf_throw (f : Fault) : (shelfTrack e b item).Follows (throw f : Run α) := follows_throw fun _ => id

theorem shelf_assertion (p : Prop) [Decidable p] (f : Func) : (shelfTrack e b item).Follows (assertion p f) :=
  Follows.ite (fun _ => follows_pure _) fun _ => shelf_throw _

theorem shelf_getPack (i : ℤ) : (shelfTrack e b item).Follows (getPack i) := follows_get.bind fun _ => follows_pure _

/-- Writing a pack without its items and equips. -/
theorem shelf_modifyPack {j : ℤ} {f : Pack → Pack} (hspan : ∀ p, (f p).span = p.span)
    (hitems : ∀ p, (f p).items = p.items) (hequips : ∀ p, (f p).equips = p.equips) :
    (shelfTrack e b item).Follows (modifyPack j f) :=
  follows_modify fun _ hw => hw.inventory (.setPack (hspan _) (hequips _) nofun (hitems _))

theorem shelf_of_told {x : Run α} (h : toldTrack.Follows x) : (shelfTrack e b item).Follows x := by
  refine h.mono ?_ fun _ _ _ h => h.elim
  rintro w w' ⟨calls, rfl⟩ hw
  exact hw.inventory (.of_heap rfl rfl rfl rfl)

/-! ### Entering the match -/

/-- A copy of an item comes to the pack of the match. -/
theorem shelf_copyItem (baseid number : ℤ) {f : ℤ → Pack → Pack} (hspan : ∀ i p, (f i p).span = p.span)
    (hitems : ∀ i p, ∀ j ∈ (f i p).items, j ∈ p.items ∨ j = i)
    (hequips : ∀ i p, ∀ x ∈ (f i p).equips, x ∈ p.equips ∨ x.2 = i) : (shelfTrack e b item).Follows (do
      let new ← itemNew env baseid number
      modifyPack e (f new)) := by
  intro w
  rw [wp_bind]
  refine wp_mono (wp_itemNew baseid number w) ?_ fun _ _ h hw => hw.inventory (.of_quiet h.1)
  rintro i u ⟨hq, -, rfl, -⟩
  rw [wp_modifyPack]
  intro hw
  have hu := hw.inventory (.of_quiet hq)
  have hnew : w.nextItem ∉ b.items := fun hmem => absurd (hw.items _ hmem).1 (lt_irrefl _)
  refine hu.setPack (hspan _ _) (fun j hj => ?_) fun x hx => ?_
  · rcases hitems _ _ j hj with hj | rfl
    · exact hu.notMem hj
    · exact hnew
  · rcases hequips _ _ x hx with hx | hx
    · exact hu.equips x hx
    · rw [hx]
      exact hnew

theorem shelf_delivery (src : Pack) (span : Span) :
    (shelfTrack e b item).Follows (delivery env src span (modifyPack e)) := by
  refine (shelf_assertion _ _).bind fun _ => Follows.ite (fun _ => ?_) fun _ => ?_
  · refine (shelf_modifyPack (by intro; rfl) (by intro; rfl) (by intro; rfl)).bind fun _ => ?_
    refine (Follows.forM fun c _ => follows_get.bind fun w => ?_).bind fun _ => ?_
    · refine Follows.bind (shelf_of_quiet ?_) fun new => shelf_modifyPack (by intro; rfl) (by intro; rfl) (by intro; rfl)
      exact fun w => wp_mono (wp_cardNew _ w) (fun _ _ h => h.1) fun _ _ h => h
    refine (Follows.forM fun i _ => follows_get.bind fun w => ?_).bind fun _ => ?_
    · refine shelf_copyItem _ _ (fun _ _ => rfl) (fun i p j hj => ?_) fun i p x hx => .inl hx
      rcases List.mem_append.1 hj with hj | hj
      · exact .inl hj
      · exact .inr (List.mem_singleton.1 hj)
    refine (Follows.forM fun x _ => follows_get.bind fun w => ?_).bind fun _ => ?_
    · refine shelf_copyItem _ _ (fun _ _ => rfl) (fun i p j hj => .inl hj) fun i p y hy => ?_
      rcases List.mem_append.1 hy with hy | hy
      · exact .inl hy
      · rw [List.mem_singleton.1 hy]
        exact .inr rfl
    exact shelf_modifyPack (by intro; rfl) (by intro; rfl) (by intro; rfl)
  · exact shelf_modifyPack (by intro; rfl) (by intro; rfl) (by intro; rfl)

/-- The items of an entity are its own, and its pack is one for longer than a match. -/
structure World.Ready (w : World) (e : ℤ) : Prop where
  span : Span.match.value < (w.pack e).span.value
  items : ∀ i ∈ (w.pack e).items, i < w.nextItem ∧ ∀ j ≠ e, i ∉ (w.pack j).items

theorem wp_enterMatch_shelved (env : Env) (fuel : ℕ) (h : w.Ready e) : wp (enterMatch env (perform env fuel) fuel e)
    (fun _ w' => w'.Shelved e (w.pack e) w.itemAt) (fun _ _ => True) w := by
  rw [enterMatch, wp_bind, wp_get, wp_bind, wp_assertion]
  refine ⟨fun _ => ?_, fun _ => trivial⟩
  rw [wp_bind, wp_modifyEntity]
  -- The match begins with an empty pack.
  show wp _ _ _ (w.putAside e)
  have hself : (w.putAside e).entityAt e = { w.entityAt e with backup := some (w.pack e), pack := { span := .match } } := by
    rw [World.putAside, World.entityAt_setEntity_self]
  have hstart : (w.putAside e).Shelved e (w.pack e) w.itemAt := by
    refine ⟨by rw [hself], by rw [World.pack, hself], fun i hi => ?_, fun x hx => ?_⟩
    · obtain ⟨hlt, hother⟩ := h.items i hi
      refine ⟨hlt, fun j => ?_, rfl⟩
      by_cases hj : j = e
      · rw [hj, World.pack, hself]
        exact List.not_mem_nil
      · rw [World.pack, World.putAside, World.entityAt_setEntity_of_ne w hj]
        exact hother j hj
    · rw [World.pack, hself] at hx
      cases hx
  have hfollows : (shelfTrack e (w.pack e) w.itemAt).Follows (do
      delivery env (w.pack e) .match (modifyPack e)
      if (← getPack e).hp = 0 then toDie env (perform env fuel) fuel e
      else
        notifyClient env e
        (env.pairs (← getPack e).cards).forM fun c => do
          stackDealInsert e c
          modifyPack e fun p => { p with dealt := p.dealt ++ [c] }) := by
    refine (shelf_delivery _ _).bind fun _ => (shelf_getPack e).bind fun p => Follows.ite (fun _ => ?_) fun _ => ?_
    · exact shelf_of_inventory (inventory_of_logic (follows_toDie (script_follows_true env fuel) e))
    · refine (shelf_of_told (told_notifyClient e)).bind fun _ => (shelf_getPack e).bind fun p => ?_
      refine Follows.forM fun c _ => Follows.bind ?_ fun _ => shelf_modifyPack (by intro; rfl) (by intro; rfl) (by intro; rfl)
      refine (shelf_getPack e).bind fun p => (shelf_assertion _ _).bind fun _ => ?_
      refine (follows_modify fun v hv => ?_).bind fun _ => shelf_modifyPack (by intro; rfl) (by intro; rfl) (by intro; rfl)
      exact hv.inventory (.of_heap rfl rfl rfl rfl)
  exact wp_mono (hfollows _) (fun _ _ hok => hok hstart) fun _ _ _ => trivial

/-! ### Using items in the match -/

theorem shelf_removeItem {i : ℤ} (hi : i ∈ (w.pack e).items) (number : ℤ) :
    wp (removeItem e i number) (fun _ w' => (shelfTrack e b item).ok w w')
      (fun f w' => (shelfTrack e b item).error f w w') w := by
  have htell {u : World} (hu : u.Shelved e b item) (calls : List ClientCall) : (u.tell calls).Shelved e b item :=
    hu.inventory (.of_heap rfl rfl rfl rfl)
  refine wp_removeItem hi (fun _ hw => ?_) fun _ hw => ?_
  · exact htell (hw.setItem (hw.notMem hi) _) _
  · refine htell ?_ _
    refine World.Shelved.setPack (hw.setItem (hw.notMem hi) _) ?_ ?_ ?_
    · rfl
    · exact fun j hj => hw.notMem (List.mem_of_mem_erase hj)
    · exact hw.equips

theorem shelf_addEquip {i slot : ℤ} (hi : i ∈ (w.pack e).items)
    (hcategory : (w.itemAt i).base.category = .equipable) :
    wp (addEquip e i slot) (fun _ w' => (shelfTrack e b item).ok w w')
      (fun f w' => (shelfTrack e b item).error f w w') w := by
  have htell {u : World} (hu : u.Shelved e b item) (calls : List ClientCall) : (u.tell calls).Shelved e b item :=
    hu.inventory (.of_heap rfl rfl rfl rfl)
  refine wp_addEquip hi hcategory (fun _ hw => ?_) (fun j hlookup _ hw => ?_) fun _ _ _ => id
  · refine htell ?_ _
    refine World.Shelved.setPack hw ?_ ?_ ?_
    · rfl
    · exact fun j hj => hw.notMem (List.mem_of_mem_erase hj)
    · intro x hx
      rcases List.mem_append.1 hx with hx | hx
      · exact hw.equips x hx
      · rw [List.mem_singleton.1 hx]
        exact hw.notMem hi
  · refine htell ?_ _
    refine World.Shelved.setPack hw ?_ ?_ ?_
    · rfl
    · intro k hk
      rcases List.mem_append.1 (List.mem_of_mem_erase hk) with hk | hk
      · exact hw.notMem hk
      · rw [List.mem_singleton.1 hk]
        exact hw.equips _ (Assoc.mem_of_lookup hlookup)
    · intro x hx
      rcases List.mem_append.1 hx with hx | hx
      · exact hw.equips x (List.mem_filter.1 hx).1
      · rw [List.mem_singleton.1 hx]
        exact hw.notMem hi

theorem shelf_callItemScript (f : Option ScriptFunc) (e' i : ℤ) :
    (shelfTrack e b item).Follows (callItemScript env (perform env fuel) f e' i) := by
  cases f with
  | none => exact shelf_throw _
  | some f =>
    refine follows_get.bind fun u => shelf_of_inventory (inventory_of_logic (Follows.forM fun a _ => ?_))
    exact perform_follows (.inl rfl) fuel a (.inl rfl)

theorem shelf_copyUseItem (i : ℤ) : (shelfTrack e b item).Follows (copyUseItem env (perform env fuel) e i) := by
  refine follows_get.bind fun w₀ => ?_
  split
  · exact follows_pure _
  refine Follows.ite (fun _ => follows_pure _) fun _ w => ?_
  rw [useItem, wp_bind, wp_get, wp_ite]
  refine ⟨fun _ => id, fun _ => ?_⟩
  rw [wp_ite]
  refine ⟨fun _ => id, fun hi => ?_⟩
  have hi := not_not.1 hi
  rw [wp_ite]
  refine ⟨fun _ => id, fun _ => ?_⟩
  cases hcategory : (w.itemAt i).base.category with
  | none => exact id
  | material => exact id
  | usable =>
    show wp (useUsable env (perform env fuel) e i (w.itemAt i)) _ _ w
    rw [useUsable, wp_ite]
    refine ⟨fun _ => id, fun _ => ?_⟩
    refine wp_imp (P := w.Shelved e b item) fun hw => ?_
    rw [wp_bind]
    refine wp_mono (shelf_removeItem hi 1) (fun _ u hu => ?_) fun _ _ h => h hw
    refine wp_mono (((shelf_callItemScript _ e i).bind fun _ => Follows.bind ?_ fun _ => follows_pure _) u)
      (fun _ _ h => h (hu hw)) fun _ _ h => h (hu hw)
    exact follows_modify fun v hv => hv.setItem (hw.notMem hi) _
  | equipable =>
    show wp (useEquipable e i) _ _ w
    rw [useEquipable, wp_bind, wp_get, wp_ite]
    refine ⟨fun _ => id, fun _ => ?_⟩
    rw [wp_bind]
    exact wp_mono (shelf_addEquip hi hcategory) (fun _ _ h => h) fun _ _ h => h

theorem shelved_of_uses {uses : List ℤ} (h : w.Shelved e b item)
    (hrun : (useMachine env fuel e).run w uses = some w') : w'.Shelved e b item := by
  refine Machine.invariant (I := fun w => w.Shelved e b item) (fun u i u' hu hstep => ?_) h hrun
  cases hstep
  exact endState_of_wp (wp_mono (shelf_copyUseItem i u) (fun _ _ hok => hok hu) fun _ _ herror => herror hu)

/-! ### Leaving the match -/

theorem wp_exitMatch_shelved (env : Env) (h : w.Shelved e b item) (hspan : Span.match.value < b.span.value) :
    wp (exitMatch env e) (fun _ w' => w'.Ready e ∧ (w'.pack e).items = b.items ∧ ∀ i ∈ b.items, w'.itemAt i = item i)
      (fun _ _ => False) w := by
  rw [exitMatch, wp_bind, wp_get]
  simp only [h.backup]
  have hpack : (w.entityAt e).pack.span = .match := h.span
  have hback : ¬ b.span.value < (w.entityAt e).pack.span.value := by
    rw [hpack]
    exact hspan.le.not_gt
  rw [wp_bind, delivery, wp_bind, wp_assertion]
  refine ⟨fun _ => ?_, fun hnot => hnot fun hsame => ?_⟩
  swap
  · rw [← hsame, hpack] at hspan
    exact absurd hspan (lt_irrefl _)
  rw [if_neg hback, wp_modifyEntity, wp_bind, wp_modifyEntity, World.entityAt_setEntity_self]
  refine wp_mono (told_notifyClient e _) ?_ fun _ _ h => h
  rintro _ w' ⟨calls, rfl⟩
  simp only [h.backup, Option.map_some, Option.getD_some]
  -- The pack that was put aside is back, and the other packs are as they were.
  refine ⟨⟨?_, fun i hi => ?_⟩, ?_, fun i hi => (h.items i hi).2.2⟩
  · simpa [World.pack, World.setEntity, Pack.receive] using hspan
  · have hi : i ∈ b.items := by simpa [World.pack, World.setEntity, Pack.receive] using hi
    obtain ⟨hlt, hunowned, -⟩ := h.items i hi
    refine ⟨hlt, fun j hj => ?_⟩
    simpa [World.pack, World.setEntity, Function.update_of_ne hj] using hunowned j
  · simp [World.pack, World.setEntity, Pack.receive]

end Shelf

/-! ### A sequence of matches -/

theorem shelved_of_enter {w w₁ : World} (h : w.Ready e)
    (henter : returned (enterMatch env (perform env fuel) fuel e) w = some w₁) : w₁.Shelved e (w.pack e) w.itemAt := by
  have hshelved := wp_enterMatch_shelved env fuel h
  unfold returned at henter
  split at henter
  · rename_i hok
    cases henter
    exact (wp_ok hok).1 hshelved
  · cases henter

/-- What a match leaves of the items of the pack: all of them, as they were. -/
theorem playMachine_step {w w' : World} {uses : List ℤ} (h : w.Ready e)
    (hstep : (playMachine env fuel e).step w uses = some w') :
    w'.Ready e ∧ (w'.pack e).items = (w.pack e).items ∧ ∀ i ∈ (w.pack e).items, w'.itemAt i = w.itemAt i := by
  obtain ⟨w₁, henter, hrest⟩ := Option.bind_eq_some_iff.1 hstep
  obtain ⟨w₂, huses, hexit⟩ := Option.bind_eq_some_iff.1 hrest
  have hshelved := shelved_of_uses (shelved_of_enter h henter) huses
  obtain ⟨_, u, hok, hback⟩ := exists_ok_of_wp (wp_exitMatch_shelved env hshelved h.span)
  rw [returned, hok] at hexit
  cases hexit
  exact hback

/-- A match that is entered can be left. -/
theorem playMachine_step_of_enter {w w₁ : World} (h : w.Ready e)
    (henter : returned (enterMatch env (perform env fuel) fuel e) w = some w₁) (uses : List ℤ) :
    ∃ w', (playMachine env fuel e).step w uses = some w' := by
  obtain ⟨w₂, huses, hshelved⟩ : ∃ w₂, (useMachine env fuel e).run w₁ uses = some w₂ ∧
      w₂.Shelved e (w.pack e) w.itemAt := by
    refine Machine.run_of_guarded (G := fun _ _ => True) (fun u i hu _ => ⟨_, rfl, ?_⟩) (shelved_of_enter h henter) ?_
    · exact endState_of_wp (wp_mono (shelf_copyUseItem i u) (fun _ _ hok => hok hu) fun _ _ herror => herror hu)
    · exact Machine.guarded_of_forall fun _ _ => trivial
  obtain ⟨_, u, hok, -⟩ := exists_ok_of_wp (wp_exitMatch_shelved env hshelved h.span)
  refine ⟨u, ?_⟩
  show Option.bind _ _ = _
  rw [henter, Option.bind_some, huses, Option.bind_some, returned, hok]

theorem itemCount_congr {w w' : World} (hitems : (w'.pack e).items = (w.pack e).items)
    (hsame : ∀ i ∈ (w.pack e).items, w'.itemAt i = w.itemAt i) (baseid : ℤ) :
    w'.itemCount e baseid = w.itemCount e baseid := by
  rw [World.itemCount, World.itemCount, hitems]
  have hfilter : ((w.pack e).items.filter fun i => (w'.itemAt i).baseid = baseid) =
      (w.pack e).items.filter fun i => (w.itemAt i).baseid = baseid :=
    List.filter_congr fun i hi => by rw [hsame i hi]
  rw [hfilter]
  congr 1
  exact List.map_congr_left fun i hi => by rw [hsame i (List.mem_filter.1 hi).1]

theorem successes_eq_nil {w : World} {uses : List ℤ} : successes env fuel e w uses = [] ↔
    (useMachine env fuel e).Guarded (fun u i => ¬ u.CanUse env fuel e i) w uses := by
  induction uses generalizing w with
  | nil => exact ⟨fun _ => trivial, fun _ => rfl⟩
  | cons i uses ih =>
    rw [successes]
    constructor
    · intro hnil
      split_ifs at hnil with hsucceeds
      refine ⟨fun hcan => hsucceeds ((succeeds_copyUseItem env fuel e i w).2 hcan), fun u hu => ?_⟩
      cases hu
      exact ih.1 hnil
    · rintro ⟨hcan, hrest⟩
      rw [if_neg fun hsucceeds => hcan ((succeeds_copyUseItem env fuel e i w).1 hsucceeds)]
      exact ih.2 (hrest _ rfl)

theorem matchSuccesses_eq_nil {w : World} {uses : List ℤ} :
    matchSuccesses env fuel e w uses = [] ↔ Idle env fuel e w uses := by
  rw [matchSuccesses, Idle]
  cases returned (enterMatch env (perform env fuel) fuel e) w with
  | none => simp
  | some w₁ => simp [successes_eq_nil]

/-- A match is charged exactly if nothing is used in it. -/
theorem charged_iff {w : World} (h : w.Ready e) (uses : List ℤ) :
    Charged env fuel e w uses ↔ Idle env fuel e w uses := by
  rw [← matchSuccesses_eq_nil]
  constructor
  · intro hcharged
    by_contra hne
    -- The match has been entered, so it is left, and the count of what has been used is as it was.
    obtain ⟨x, l, hl⟩ := List.exists_cons_of_ne_nil hne
    cases henter : returned (enterMatch env (perform env fuel) fuel e) w with
    | none =>
      rw [matchSuccesses, henter] at hl
      cases hl
    | some w₁ =>
      obtain ⟨w', hstep⟩ := playMachine_step_of_enter h henter uses
      obtain ⟨-, hitems, hsame⟩ := playMachine_step h hstep
      have hcount := hcharged w' hstep x.2.baseid
      rw [itemCount_congr hitems hsame, hl, List.countP_cons_of_pos (by simp)] at hcount
      push_cast at hcount
      omega
  · intro hnil w' hstep baseid
    obtain ⟨-, hitems, hsame⟩ := playMachine_step h hstep
    rw [itemCount_congr hitems hsame, hnil, List.countP_nil]
    simp

theorem totalUses_of_idle {i : ℤ} {plays : List (List ℤ)} : ∀ {w : World},
    (playMachine env fuel e).Guarded (Idle env fuel e) w plays → totalUses env fuel e i w plays = 0 := by
  induction plays with
  | nil => exact fun _ => rfl
  | cons uses rest ih =>
    rintro w ⟨hidle, hrest⟩
    rw [totalUses, matchSuccesses_eq_nil.2 hidle]
    cases hstep : (playMachine env fuel e).step w uses with
    | none => rfl
    | some w' => simp [ih (hrest w' hstep)]

/-- **Consumption survives a sequence of matches exactly if nothing that could be used is asked for in
them.** -/
theorem consumption_survives_iff (env : Env) (fuel : ℕ) {e : ℤ} {w : World} (h : w.Ready e) (plays : List (List ℤ)) :
    ConsumptionSurvives env fuel e w plays ↔ (playMachine env fuel e).Guarded (Idle env fuel e) w plays := by
  have hcharged : (playMachine env fuel e).Guarded (Charged env fuel e) w plays ↔
      (playMachine env fuel e).Guarded (Idle env fuel e) w plays := by
    induction plays generalizing w with
    | nil => exact Iff.rfl
    | cons uses rest ih =>
      refine and_congr (charged_iff h uses) (forall_congr' fun w' => imp_congr_right fun hstep => ?_)
      exact ih (playMachine_step h hstep).1
  rw [ConsumptionSurvives, hcharged]
  refine and_iff_left_of_imp fun hidle i _ _ => ?_
  rw [totalUses_of_idle hidle]
  exact Nat.zero_le _

/-- Potions that may be used once. -/
def potionEnv : Env where
  cardTable _ := some {}
  itemTable _ := some { category := .usable, maxOverlap := 9, consumableTimes := 1 }
  buffTable _ := some {}
  entityTable _ := some {}
  script _ _ _ := []
  itemScript _ _ _ _ := []
  pairs := id
  pairs_perm := plainEnv.pairs_perm

/-- A member of the scene with two of them. -/
def twoPotions : World where
  entityAt e := { pack := { hp := 9, maxhp := 9, items := if e = 1 then [7] else [] } }
  itemAt _ := {
    baseid := 5, base := { category := .usable, maxOverlap := 9, consumableTimes := 1 }, number := 2, useTimes := 0 }
  nextItem := 8
  scene := some { members := [1] }

theorem twoPotions_ready : twoPotions.Ready 1 := by
  refine ⟨by decide, fun i hi => ?_⟩
  obtain rfl : i = 7 := List.mem_singleton.1 hi
  refine ⟨by decide, fun j hj => ?_⟩
  simp [twoPotions, World.pack, hj]

/-- The item of the pack is not there in the match, only its copy. -/
theorem consumption_survives_twoPotions : ConsumptionSurvives potionEnv 1 1 twoPotions [[7]] := by
  refine (consumption_survives_iff potionEnv 1 twoPotions_ready [[7]]).2 ⟨fun w₁ hw₁ => ?_, fun _ _ => trivial⟩
  have hitems : (returned (enterMatch potionEnv (perform potionEnv 1) 1 1) twoPotions).map
      (fun w => (w.pack 1).items) = some [8] := by decide +kernel
  rw [hw₁, Option.map_some, Option.some.injEq] at hitems
  refine ⟨fun ⟨_, _, hi, _⟩ => ?_, fun _ _ => trivial⟩
  rw [hitems] at hi
  exact absurd hi (by decide)

/-- **It does not in general**: a potion that may be used once is used in each of two matches, and there
are still two of them. -/
theorem potions_come_back : twoPotions.Ready 1 ∧ twoPotions.itemCount 1 5 = 2 ∧
    ((playMachine potionEnv 1 1).run twoPotions [[8], [9]]).map (fun w => w.itemCount 1 5) = some 2 ∧
    totalUses potionEnv 1 1 7 twoPotions [[8], [9]] = 2 ∧
    ¬ ConsumptionSurvives potionEnv 1 1 twoPotions [[8], [9]] := by
  have htotal : totalUses potionEnv 1 1 7 twoPotions [[8], [9]] = 2 := by decide +kernel
  refine ⟨twoPotions_ready, by decide +kernel, by decide +kernel, htotal, fun h => ?_⟩
  have hlimit := h.2 7 (by decide) (by decide)
  rw [htotal] at hlimit
  exact absurd hlimit (by decide)

end Slam.Game
