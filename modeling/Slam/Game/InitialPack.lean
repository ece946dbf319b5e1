import Slam.Game.Stacking

/-!
# The pack of a new entity

What `pack_init` makes of a row: one card for each entry of `init_cards`, of each entry of `init_items` as much
as the stacks allow, and the puppets in the bag or in their placeholders (`Furnished`). The buffs are another
matter. `Buff:new` is called with the identifier that `cc.BuffAdd` has just returned and the base id, and takes
them for the base id and the layers. A buff is right only if the identifiers happen to be the base ids and
the base id is cut down to the same layers (`Coincide`).
-/

namespace Slam.Game

open Raising

/-! ### What the row allows -/

/-- How many of the free slots an item may take: one if it is usable. -/
def ItemBase.stackLimit (base : ItemBase) (free : ℕ) : ℕ := if base.category = .usable then min 1 free else free

/-- What an entry of `init_items` gives with so many free slots: the number, or what the stacks hold. -/
def Env.allowance (env : Env) (free : ℕ) (entry : ℤ × ℤ) : ℤ :=
  match env.itemTable entry.1 with
  | none => 0
  | some base => min (max 0 entry.2) (base.stackLimit free * base.limit)

/-- How many there are of an item among some stacks. -/
def World.totalOf (w : World) (items : List ℤ) (baseid : ℤ) : ℤ :=
  ((items.filter fun i => (w.itemAt i).baseid = baseid).map fun i => (w.itemAt i).number).sum

/-- The stacks of some entries. -/
def World.stacksOf (w : World) (items : List ℤ) (entries : List (ℤ × ℤ)) : ℕ :=
  (items.filter fun i => (w.itemAt i).baseid ∈ entries.map Prod.fst).length

/-- The layers of a new buff. -/
def BuffBase.clampLayers (base : BuffBase) (layers : ℤ) : ℤ :=
  (({ entity := 0, baseid := 0, base := base, layers := 0 } : Buff).addLayers layers).layers

/-- What is in a pack once some of the entries of a row have been gone through. -/
structure Furnished (env : Env) (slots : ℤ) (cards : List ℤ) (items puppets : List (ℤ × ℤ)) (p : Pack) (w : World) :
    Prop where
  cardsLt : ∀ c ∈ p.cards, c < w.nextCard
  cardsNodup : p.cards.Nodup
  cards : p.cards.map (fun c => (w.cardAt c).baseid) = cards
  itemsLt : ∀ i ∈ p.items, i < w.nextItem
  itemsOf : ∀ i ∈ p.items, (w.itemAt i).baseid ∈ items.map Prod.fst
  items : ∀ pre x post, items = pre ++ x :: post →
    w.totalOf p.items x.1 = env.allowance (slots - w.stacksOf p.items pre).toNat x
  puppets : ∀ x ∈ puppets, ∃ t < w.nextEntity, (w.entityAt t).baseid = x.1 ∧
    if x.2 = Placeholder.none then t ∈ p.puppets else (x.2, t) ∈ p.placeholders
  buffs : p.buffs = []

/-- **What `pack_init` is to make of a row.** -/
structure InitialPack (env : Env) (base : EntityBase) (p : Pack) (w : World) : Prop where
  cardsNodup : p.cards.Nodup
  cards : (p.cards.map fun c => (w.cardAt c).baseid).Perm base.initCards
  items : ∀ pre x post, env.entries base.initItems = pre ++ x :: post →
    w.totalOf p.items x.1 = env.allowance (base.maxPackSlots - w.stacksOf p.items pre).toNat x
  puppets : ∀ x ∈ env.entries base.initPuppets, ∃ t, (w.entityAt t).baseid = x.1 ∧
    if x.2 = Placeholder.none then t ∈ p.puppets else (x.2, t) ∈ p.placeholders
  buffsNodup : p.buffs.Nodup
  buffs : (p.buffs.map fun b => ((w.buffAt b).baseid, some (w.buffAt b).layers)).Perm
    ((env.entries base.initBuffs).map fun x => (x.1, (env.buffTable x.1).map (·.clampLayers x.2)))

variable {env : Env}

theorem World.totalOf_congr {w w' : World} {items : List ℤ} (h : ∀ i ∈ items, w'.itemAt i = w.itemAt i)
    (baseid : ℤ) : w'.totalOf items baseid = w.totalOf items baseid := by
  have hfilter : (items.filter fun i => (w'.itemAt i).baseid = baseid)
      = items.filter fun i => (w.itemAt i).baseid = baseid := List.filter_congr fun i hi => by rw [h i hi]
  rw [totalOf, totalOf, hfilter]
  exact congrArg List.sum (List.map_congr_left fun i hi => by rw [h i (List.mem_of_mem_filter hi)])

theorem World.stacksOf_congr {w w' : World} {items : List ℤ} (h : ∀ i ∈ items, w'.itemAt i = w.itemAt i)
    (entries : List (ℤ × ℤ)) : w'.stacksOf items entries = w.stacksOf items entries :=
  congrArg List.length (List.filter_congr fun i hi => by rw [h i hi])

/-- New stacks of another item change nothing for those of this one. -/
theorem World.totalOf_append_of_ne {w : World} {items new : List ℤ} {baseid baseid' : ℤ}
    (hnew : ∀ i ∈ new, (w.itemAt i).baseid = baseid') (hne : baseid' ≠ baseid) :
    w.totalOf (items ++ new) baseid = w.totalOf items baseid := by
  have hnone : (new.filter fun i => (w.itemAt i).baseid = baseid) = [] :=
    List.filter_eq_nil_iff.2 fun i hi => by simp [hnew i hi, hne]
  rw [totalOf, List.filter_append, hnone, List.append_nil, totalOf]

theorem World.stacksOf_append_of_notMem {w : World} {items new : List ℤ} {baseid : ℤ} {entries : List (ℤ × ℤ)}
    (hnew : ∀ i ∈ new, (w.itemAt i).baseid = baseid) (hne : baseid ∉ entries.map Prod.fst) :
    w.stacksOf (items ++ new) entries = w.stacksOf items entries := by
  have hnone : (new.filter fun i => (w.itemAt i).baseid ∈ entries.map Prod.fst) = [] :=
    List.filter_eq_nil_iff.2 fun i hi => by rw [hnew i hi, decide_eq_true_eq]; exact hne
  rw [stacksOf, List.filter_append, hnone, List.append_nil, stacksOf]

namespace Furnished

variable {slots : ℤ} {cards : List ℤ} {items puppets : List (ℤ × ℤ)} {p : Pack} {w w' : World}

theorem grown (h : Furnished env slots cards items puppets p w) (hgrown : Grown w w') :
    Furnished env slots cards items puppets p w' where
  cardsLt c hc := (h.cardsLt c hc).trans_le hgrown.nextCard
  cardsNodup := h.cardsNodup
  cards := by
    rw [← h.cards]
    exact List.map_congr_left fun c hc => by rw [hgrown.cardAt c (h.cardsLt c hc)]
  itemsLt i hi := (h.itemsLt i hi).trans_le hgrown.nextItem
  itemsOf i hi := by
    rw [hgrown.itemAt i (h.itemsLt i hi)]
    exact h.itemsOf i hi
  items pre x post hitems := by
    have hsame : ∀ i ∈ p.items, w'.itemAt i = w.itemAt i := fun i hi => hgrown.itemAt i (h.itemsLt i hi)
    rw [World.totalOf_congr hsame, World.stacksOf_congr hsame]
    exact h.items pre x post hitems
  puppets x hx := by
    obtain ⟨t, ht, hbaseid, hplace⟩ := h.puppets x hx
    exact ⟨t, ht.trans_le hgrown.nextEntity, by rw [hgrown.entityAt t ht, hbaseid], hplace⟩
  buffs := h.buffs

end Furnished

section Init

variable {slots : ℤ} {cards : List ℤ} {items puppets : List (ℤ × ℤ)} {p : Pack} {w : World}

theorem furnished_initCard (h : Furnished env slots cards items puppets p w) (baseid : ℤ) :
    wp (initCard env p baseid) (Furnished env slots (cards ++ [baseid]) items puppets) (fun _ _ => True) w := by
  rw [initCard, wp_bind]
  refine wp_mono (grown_cardNew baseid w) ?_ fun _ _ _ => trivial
  rintro c w' ⟨hgrown, rfl, hc, hbaseid, -⟩
  have h' := h.grown hgrown
  rw [wp_bind, wp_assertion]
  refine ⟨fun hnew => { h' with cardsLt := ?_, cardsNodup := ?_, cards := ?_ }, fun _ => trivial⟩
  · intro c hmem
    rcases List.mem_append.1 hmem with hmem | hmem
    · exact h'.cardsLt c hmem
    · rw [List.mem_singleton.1 hmem]
      exact hc
  · exact List.nodup_append_comm.1 (List.nodup_cons.2 ⟨hnew, h.cardsNodup⟩)
  · rw [List.map_append, h'.cards, List.map_singleton, hbaseid]

theorem Env.allowance_zero (entry : ℤ × ℤ) : env.allowance 0 entry = 0 := by
  unfold allowance
  split
  · rfl
  · rename_i base _
    have hlimit : base.stackLimit 0 = 0 := by
      unfold ItemBase.stackLimit
      split_ifs <;> rfl
    rw [hlimit]
    simp

theorem Env.allowance_of_nonpos {free : ℕ} {entry : ℤ × ℤ} (hnumber : entry.2 ≤ 0) : env.allowance free entry = 0 := by
  unfold allowance
  split
  · rfl
  · rename_i base _
    rw [max_eq_left hnumber]
    exact min_eq_left (mul_nonneg (Int.natCast_nonneg _) base.limit_pos.le)

/-- A usable item takes one stack. -/
theorem Env.allowance_usable {base : ItemBase} {baseid number : ℤ} {free : ℕ} (hbase : env.itemTable baseid = some base)
    (husable : base.category = .usable) (hpos : 0 < number) :
    env.allowance (free + 1) (baseid, number) = base.clampNumber number := by
  simp only [allowance, hbase, ItemBase.stackLimit, if_pos husable]
  rw [base.clampNumber_of_pos hpos, max_eq_right hpos.le]
  simp

/-- Any other item takes one stack and then what the other slots allow of the rest. -/
theorem Env.allowance_succ {base : ItemBase} {baseid number : ℤ} {free : ℕ} (hbase : env.itemTable baseid = some base)
    (husable : base.category ≠ .usable) (hpos : 0 < number) :
    env.allowance (free + 1) (baseid, number)
      = base.clampNumber number + env.allowance free (baseid, number - base.clampNumber number) := by
  simp only [allowance, hbase, ItemBase.stackLimit, if_neg husable]
  rw [base.clampNumber_of_pos hpos]
  have hper := base.limit_pos
  push_cast
  rw [add_mul, one_mul]
  have hrest : 0 ≤ (free : ℤ) * base.limit := mul_nonneg (Int.natCast_nonneg _) hper.le
  omega

/-- The stacks that the loop of an item adds. -/
theorem wp_initItemLoop {baseid : ℤ} (free : ℕ) (number : ℤ) (hlt : ∀ i ∈ p.items, i < w.nextItem) :
    wp (initItemLoop env baseid free number p) (fun p' w' => ∃ new, p' = { p with items := p.items ++ new } ∧
        Grown w w' ∧ (∀ i ∈ p'.items, i < w'.nextItem) ∧ (∀ i ∈ new, (w'.itemAt i).baseid = baseid) ∧
        (new.map fun i => (w'.itemAt i).number).sum = env.allowance free (baseid, number))
      (fun _ _ => True) w := by
  induction free generalizing p w number with
  | zero => exact ⟨[], by rw [List.append_nil], .refl w, hlt, nofun, (Env.allowance_zero _).symm⟩
  | succ free ih =>
    rw [initItemLoop, wp_ite]
    constructor
    · intro hnumber
      exact ⟨[], by rw [List.append_nil], .refl w, hlt, nofun, (Env.allowance_of_nonpos hnumber).symm⟩
    · intro hnumber
      have hpos : 0 < number := not_le.1 hnumber
      rw [wp_bind]
      by_cases hitem : env.HasItem baseid
      · obtain ⟨base, hbase, hscript⟩ := hitem
        rw [wp_ok (itemNew_apply hbase hscript number w)]
        have hgrown := Grown.newItem w (base.item baseid number)
        have hself := w.itemAt_newItem (base.item baseid number)
        have hnext : w.nextItem < (w.newItem (base.item baseid number)).nextItem := Int.lt_succ _
        generalize w.newItem (base.item baseid number) = w₁ at hgrown hself hnext
        have hlt₁ : ∀ i ∈ p.items ++ [w.nextItem], i < w₁.nextItem := by
          intro i hi
          rcases List.mem_append.1 hi with hi | hi
          · exact (hlt i hi).trans hnext
          · rw [List.mem_singleton.1 hi]
            exact hnext
        rw [wp_bind, wp_assertion]
        refine ⟨fun _ => ?_, fun _ => trivial⟩
        rw [wp_bind, wp_get, wp_ite, hself]
        constructor
        · intro husable
          refine ⟨[w.nextItem], rfl, hgrown, hlt₁, ?_, ?_⟩
          · intro i hi
            rw [List.mem_singleton.1 hi, hself]
            rfl
          · rw [Env.allowance_usable hbase husable hpos, List.map_singleton, hself]
            exact List.sum_singleton
        · intro husable
          refine wp_mono (ih (number - base.clampNumber number) hlt₁) ?_ fun _ _ _ => trivial
          rintro p' w' ⟨new, rfl, hgrown', hlt', hbaseid, hsum⟩
          have hkept : w'.itemAt w.nextItem = base.item baseid number := by
            rw [hgrown'.itemAt _ hnext, hself]
          refine ⟨w.nextItem :: new, ?_, hgrown.trans hgrown', hlt', ?_, ?_⟩
          · rw [List.append_assoc]
            rfl
          · intro i hi
            rcases List.mem_cons.1 hi with rfl | hi
            · rw [hkept]
              rfl
            · exact hbaseid i hi
          · rw [List.map_cons, List.sum_cons, hsum, hkept, Env.allowance_succ hbase husable hpos]
            rfl
      · refine wp_mono (grown_itemNew baseid number w) ?_ fun _ _ _ => trivial
        rintro i w' ⟨-, -, -, -, hhas⟩
        exact absurd hhas hitem

/-- An item of the row, of which there are no stacks yet. -/
theorem furnished_initItem {base : EntityBase} {x : ℤ × ℤ}
    (h : Furnished env base.maxPackSlots cards items puppets p w) (hnew : x.1 ∉ items.map Prod.fst) :
    wp (initItem env base p x) (Furnished env base.maxPackSlots cards (items ++ [x]) puppets) (fun _ _ => True) w := by
  have hnone : (env.pairs p.items).find? (fun i => (w.itemAt i).baseid = x.1) = none := by
    refine List.find?_eq_none.2 fun i hi => ?_
    rw [decide_eq_true_eq]
    intro hx
    exact hnew (hx ▸ h.itemsOf i (env.mem_pairs.1 hi))
  rw [initItem, wp_bind, wp_get, hnone]
  refine wp_mono (wp_initItemLoop _ _ h.itemsLt) ?_ fun _ _ _ => trivial
  rintro p' w' ⟨new, rfl, hgrown, hlt, hbaseid, hsum⟩
  have h' := h.grown hgrown
  refine { h' with itemsLt := hlt, itemsOf := ?_, items := ?_ }
  · intro i hi
    rw [List.map_append]
    rcases List.mem_append.1 hi with hi | hi
    · exact List.mem_append_left _ (h'.itemsOf i hi)
    · exact List.mem_append_right _ (by rw [hbaseid i hi]; exact List.mem_singleton_self _)
  · intro pre y post hsplit
    rcases List.eq_nil_or_concat post with rfl | ⟨post, z, rfl⟩
    · -- the item of this turn: all stacks there were are those of the entries before
      obtain ⟨rfl, hxy⟩ := List.append_inj' hsplit rfl
      cases hxy
      have hold : w'.totalOf p.items x.1 = 0 := by
        have hfilter : (p.items.filter fun i => (w'.itemAt i).baseid = x.1) = [] :=
          List.filter_eq_nil_iff.2 fun i hi => by
            rw [decide_eq_true_eq]
            exact fun hx => hnew (hx ▸ h'.itemsOf i hi)
        rw [World.totalOf, hfilter]
        rfl
      have hall : w'.stacksOf (p.items ++ new) items = p.items.length := by
        rw [World.stacksOf_append_of_notMem hbaseid hnew, World.stacksOf, List.filter_eq_self.2]
        exact fun i hi => decide_eq_true (h'.itemsOf i hi)
      have hnewest : w'.totalOf (p.items ++ new) x.1 = w'.totalOf p.items x.1 + (new.map fun i => (w'.itemAt i).number).sum := by
        have hfilter : (new.filter fun i => (w'.itemAt i).baseid = x.1) = new :=
          List.filter_eq_self.2 fun i hi => decide_eq_true (hbaseid i hi)
        rw [World.totalOf, List.filter_append, List.map_append, List.sum_append, hfilter, World.totalOf]
      rw [hnewest, hold, hsum, zero_add, hall]
    · -- an item of an earlier turn
      rw [List.concat_eq_append, ← List.cons_append, ← List.append_assoc] at hsplit
      obtain ⟨rfl, -⟩ := List.append_inj' hsplit rfl
      have hy : x.1 ≠ y.1 := fun hxy => hnew (by rw [hxy]; simp)
      have hpre : x.1 ∉ pre.map Prod.fst := fun hmem => hnew (by rw [List.map_append]; exact List.mem_append_left _ hmem)
      rw [World.totalOf_append_of_ne hbaseid hy, World.stacksOf_append_of_notMem hbaseid hpre]
      exact h'.items pre y post rfl

/-- A puppet of the row, made by `Entity:new`. -/
theorem furnished_initPuppet {side : Side} {span : Span} {fuel : ℕ} {master : Option ℤ} {baseid : ℤ} {x : ℤ × ℤ}
    (h : Furnished env slots cards items puppets p w) :
    wp (initPuppet (entityNew env side span fuel master) baseid p x) (Furnished env slots cards items (puppets ++ [x]))
      (fun _ _ => True) w := by
  rw [initPuppet, wp_bind, wp_assertion]
  refine ⟨fun _ => ?_, fun _ => trivial⟩
  rw [wp_bind]
  refine wp_mono (wp_entityNew side span fuel master x.1 w) ?_ fun _ _ _ => trivial
  rintro t w' ⟨-, hgrown, hmade⟩
  have h' := h.grown hgrown
  rw [wp_ite]
  constructor
  · intro hnone
    rw [wp_bind, wp_assertion]
    refine ⟨fun _ => { h' with puppets := ?_ }, fun _ => trivial⟩
    intro y hy
    rcases List.mem_append.1 hy with hy | hy
    · obtain ⟨s, hs, hbase, hplace⟩ := h'.puppets y hy
      refine ⟨s, hs, hbase, ?_⟩
      split_ifs at hplace ⊢
      · exact List.mem_append_left _ hplace
      · exact hplace
    · rw [List.mem_singleton.1 hy]
      exact ⟨t, hmade.sound.lt, hmade.baseid, by rw [if_pos hnone]; exact List.mem_append_right _ (List.mem_singleton_self t)⟩
  · intro hsome
    rw [wp_bind, wp_assertion]
    refine ⟨fun _ => ?_, fun _ => trivial⟩
    rw [wp_bind, wp_assertion]
    refine ⟨fun _ => { h' with puppets := ?_ }, fun _ => trivial⟩
    intro y hy
    rcases List.mem_append.1 hy with hy | hy
    · obtain ⟨s, hs, hbase, hplace⟩ := h'.puppets y hy
      refine ⟨s, hs, hbase, ?_⟩
      split_ifs at hplace ⊢
      · exact hplace
      · exact List.mem_append_left _ hplace
    · rw [List.mem_singleton.1 hy]
      exact ⟨t, hmade.sound.lt, hmade.baseid, by rw [if_neg hsome]; exact List.mem_append_right _ (List.mem_singleton_self _)⟩

end Init

/-- The entries of a table have different keys. -/
theorem Env.nodup_entries (t : List (ℤ × ℤ)) : ((env.entries t).map Prod.fst).Nodup := by
  have hkeys : (env.pairs (t.map Prod.fst).dedup).Nodup := (env.pairs_perm _).nodup_iff.2 (List.nodup_dedup _)
  rw [entries, List.map_filterMap]
  refine hkeys.filterMap fun k k' l hk hk' => ?_
  simp only [Option.map_map, Option.mem_def, Option.map_eq_some_iff] at hk hk'
  obtain ⟨_, -, rfl⟩ := hk
  obtain ⟨_, -, rfl⟩ := hk'
  rfl

/-- The part of `pack_init` before the buffs. -/
def packInitGoods (env : Env) (new : ℤ → Run ℤ) (e baseid : ℤ) (base : EntityBase) (span : Span) : Run Pack := do
  let p ← (env.pairs base.initCards).foldlM (initCard env) (Pack.initial e base span)
  let p ← (env.entries base.initItems).foldlM (initItem env base) p
  (env.entries base.initPuppets).foldlM (initPuppet new baseid) p

theorem wp_packInit {new : ℤ → Run ℤ} {e baseid : ℤ} {base : EntityBase} {span : Span} {w : World}
    {Q : Pack → World → Prop} {E : Fault → World → Prop} :
    wp (packInit env new e baseid base span) Q E w ↔
      wp (packInitGoods env new e baseid base span)
        (fun p u => wp ((env.entries base.initBuffs).foldlM (initBuff env e) p) Q E u) E w := by
  rw [packInit, packInitGoods, wp_bind, wp_bind]
  refine iff_of_eq (congrArg (fun P => wp _ P E w) (funext fun p => funext fun u => propext ?_))
  rw [wp_bind, wp_bind]
  exact iff_of_eq (congrArg (fun P => wp _ P E u) (funext fun p => funext fun u => propext (wp_bind ..)))

/-- **The cards, items and puppets of a row are what they are to be**, if they can be made at all. -/
theorem furnished_packInitGoods {side : Side} {span : Span} {fuel : ℕ} {master : Option ℤ} (e baseid : ℤ)
    (base : EntityBase) (w : World) :
    wp (packInitGoods env (entityNew env side span fuel master) e baseid base span)
      (Furnished env base.maxPackSlots (env.pairs base.initCards) (env.entries base.initItems)
        (env.entries base.initPuppets)) (fun _ _ => True) w := by
  have hinitial : Furnished env base.maxPackSlots [] [] [] (Pack.initial e base span) w :=
    ⟨nofun, List.nodup_nil, rfl, nofun, nofun, fun pre x post h => by simp at h, nofun, rfl⟩
  rw [packInitGoods, wp_bind]
  refine wp_mono (wp_foldlM_done (I := fun done => Furnished env base.maxPackSlots done [] [])
    (fun done b rest p w _ h => furnished_initCard h b) hinitial) (fun p u h => ?_) fun _ _ _ => trivial
  rw [wp_bind]
  have hnodup := env.nodup_entries base.initItems
  refine wp_mono (wp_foldlM_done (I := fun done => Furnished env base.maxPackSlots _ done [])
    (fun done x rest p w hxs h => furnished_initItem h ?_) h) (fun p u h => ?_) fun _ _ _ => trivial
  · rw [hxs, List.map_append, List.map_cons] at hnodup
    exact fun hmem => (List.nodup_append.1 hnodup).2.2 _ hmem _ List.mem_cons_self rfl
  · exact wp_foldlM_done (I := fun done => Furnished env base.maxPackSlots _ _ done)
      (fun done x rest p w _ h => furnished_initPuppet h) h

/-! ### The buffs -/

/-- The identifiers that `cc.BuffAdd` is about to return happen to be the base ids of the entries, two of them
being taken for each buff, and each base id makes the same layers as the layers of its entry. -/
def Coincide (env : Env) : ℤ → List (ℤ × ℤ) → Prop
  | _, [] => True
  | n, x :: entries =>
    x.1 = n ∧ (∃ base, env.buffTable n = some base ∧ base.scriptFunc.isSome ∧ base.clampLayers n = base.clampLayers x.2) ∧
      Coincide env (n + 2) entries

/-- A buff as `Buff:new` makes it. -/
def BuffBase.buff (base : BuffBase) (e baseid layers : ℤ) : Buff :=
  { entity := e, baseid := baseid, base := base, layers := base.clampLayers layers }

/-- The world after a buff of a row has been made. -/
def World.buffMade (w : World) (e baseid : ℤ) (base : BuffBase) : World :=
  World.setBuff { w with nextBuff := w.nextBuff + 2 } (w.nextBuff + 1) (base.buff e w.nextBuff baseid)

section Buffs

variable {e : ℤ} {p p' : Pack} {u u' : World} {x : ℤ × ℤ} {entries : List (ℤ × ℤ)}

/-- An entry adds to the layers of a buff, or makes a buff of the next identifier. -/
theorem wp_initBuff : wp (initBuff env e p x) (fun p' u' =>
    (∃ b ∈ p.buffs, (u.buffAt b).baseid = x.1 ∧ p' = p ∧ u' = u.setBuff b ((u.buffAt b).addLayers x.2)) ∨
    (∃ base, env.buffTable u.nextBuff = some base ∧ base.scriptFunc.isSome ∧ (∀ b ∈ p.buffs, (u.buffAt b).baseid ≠ x.1) ∧
      p' = { p with buffs := p.buffs ++ [u.nextBuff + 1] } ∧ u' = u.buffMade e x.1 base)) (fun _ _ => True) u := by
  rw [initBuff, wp_bind, wp_get]
  split
  · rename_i b hfind
    refine .inl ⟨b, env.mem_pairs.1 (List.mem_of_find?_eq_some hfind), ?_, rfl, rfl⟩
    simpa using List.find?_some hfind
  · rename_i hfind
    have hnone : ∀ b ∈ p.buffs, (u.buffAt b).baseid ≠ x.1 := fun b hb =>
      of_decide_eq_false (Bool.eq_false_iff.2 (List.find?_eq_none.1 hfind b (env.mem_pairs.2 hb)))
    rw [wp_bind, wp_modify, wp_bind, buffNew, wp_bind, wp_get, wp_bind, wp_modify]
    split
    · trivial
    · rename_i base hbase
      rw [wp_bind, wp_assertion]
      refine ⟨fun hscript => ?_, fun _ => trivial⟩
      rw [wp_bind, wp_modify, wp_bind, layersAdd, wp_modify, wp_pure, wp_bind, wp_assertion]
      refine ⟨fun _ => .inr ⟨base, hbase, hscript, hnone, rfl, ?_⟩, fun _ => trivial⟩
      have htwo : u.nextBuff + 1 + 1 = u.nextBuff + 2 := by ring
      simp only [World.buffMade, World.setBuff, Function.update_self, Function.update_idem, htwo]
      rfl

/-- What the loop over some entries does, where `new` are the buffs it makes. -/
structure BuffRun (entries : List (ℤ × ℤ)) (p : Pack) (u : World) (new : List ℤ) (p' : Pack) (u' : World) : Prop where
  pack : p' = { p with buffs := p.buffs ++ new }
  lt : ∀ b ∈ p'.buffs, b < u'.nextBuff
  nodup : p.buffs.Nodup → p'.buffs.Nodup
  grown : Grown u u'
  length : new.length ≤ entries.length
  short : (∃ b ∈ p.buffs, (u.buffAt b).baseid ∈ entries.map Prod.fst) → new.length < entries.length
  baseid : ∀ b ∈ p.buffs, (u'.buffAt b).baseid = (u.buffAt b).baseid
  kept : ∀ b ∈ p.buffs, (u.buffAt b).baseid ∉ entries.map Prod.fst → u'.buffAt b = u.buffAt b

theorem BuffRun.nil (hlt : ∀ b ∈ p.buffs, b < u.nextBuff) : BuffRun [] p u [] p u where
  pack := by rw [List.append_nil]
  lt := hlt
  nodup := id
  grown := .refl u
  length := le_refl _
  short := fun ⟨b, _, hb⟩ => absurd hb List.not_mem_nil
  baseid _ _ := rfl
  kept _ _ _ := rfl

/-- An entry whose base id is there already makes no buff. -/
theorem BuffRun.match {b : ℤ} {new : List ℤ} (hb : b ∈ p.buffs) (hbaseid : (u.buffAt b).baseid = x.1)
    (hrun : BuffRun entries p (u.setBuff b ((u.buffAt b).addLayers x.2)) new p' u') :
    BuffRun (x :: entries) p u new p' u' := by
  have hsame : ∀ b' ∈ p.buffs, ((u.setBuff b ((u.buffAt b).addLayers x.2)).buffAt b').baseid = (u.buffAt b').baseid := by
    intro b' _
    by_cases hne : b' = b
    · rw [hne, World.buffAt_setBuff_self]
      rfl
    · rw [World.buffAt_setBuff_of_ne _ hne]
  have hset : Grown u (u.setBuff b ((u.buffAt b).addLayers x.2)) := { Grown.refl u with }
  refine ⟨hrun.pack, hrun.lt, hrun.nodup, hset.trans hrun.grown, hrun.length.trans (Nat.le_succ _),
    fun _ => Nat.lt_succ_of_le hrun.length, fun b' hb' => (hrun.baseid b' hb').trans (hsame b' hb'), ?_⟩
  intro b' hb' hnot
  rw [List.map_cons, List.mem_cons, not_or] at hnot
  have hne : b' ≠ b := by
    rintro rfl
    exact hnot.1 hbaseid
  rw [hrun.kept b' hb' (by rw [hsame b' hb']; exact hnot.2), World.buffAt_setBuff_of_ne _ hne]

/-- An entry that makes a buff. -/
theorem BuffRun.made {base : BuffBase} {new : List ℤ} (hlt : ∀ b ∈ p.buffs, b < u.nextBuff)
    (hnone : ∀ b ∈ p.buffs, (u.buffAt b).baseid ≠ x.1)
    (hrun : BuffRun entries { p with buffs := p.buffs ++ [u.nextBuff + 1] } (u.buffMade e x.1 base) new p' u') :
    BuffRun (x :: entries) p u ((u.nextBuff + 1) :: new) p' u' := by
  have hold : ∀ b ∈ p.buffs, (u.buffMade e x.1 base).buffAt b = u.buffAt b := fun b hb =>
    World.buffAt_setBuff_of_ne _ (by have := hlt b hb; omega) _
  have hmem : ∀ b ∈ p.buffs, b ∈ p.buffs ++ [u.nextBuff + 1] := fun b hb => List.mem_append_left _ hb
  have hset : Grown u (u.buffMade e x.1 base) := { Grown.refl u with }
  refine ⟨?_, hrun.lt, fun hnodup => hrun.nodup ?_, hset.trans hrun.grown, ?_, ?_, ?_, ?_⟩
  · rw [hrun.pack, List.append_assoc]
    rfl
  · refine List.nodup_append_comm.1 (List.nodup_cons.2 ⟨fun hb => ?_, hnodup⟩)
    have := hlt _ hb
    omega
  · exact Nat.succ_le_succ hrun.length
  · rintro ⟨b, hb, hentry⟩
    rw [List.map_cons, List.mem_cons] at hentry
    have hlater := hentry.resolve_left (hnone b hb)
    exact Nat.succ_lt_succ (hrun.short ⟨b, hmem b hb, by rw [hold b hb]; exact hlater⟩)
  · exact fun b hb => (hrun.baseid b (hmem b hb)).trans (by rw [hold b hb])
  · intro b hb hnot
    rw [List.map_cons, List.mem_cons, not_or] at hnot
    rw [hrun.kept b (hmem b hb) (by rw [hold b hb]; exact hnot.2), hold b hb]

theorem lt_buffMade {base : BuffBase} (hlt : ∀ b ∈ p.buffs, b < u.nextBuff) :
    ∀ b ∈ p.buffs ++ [u.nextBuff + 1], b < (u.buffMade e x.1 base).nextBuff := by
  intro b hb
  show b < u.nextBuff + 2
  rcases List.mem_append.1 hb with hb | hb
  · have := hlt b hb
    omega
  · rw [List.mem_singleton.1 hb]
    omega

theorem wp_initBuffs (hlt : ∀ b ∈ p.buffs, b < u.nextBuff) : wp (entries.foldlM (initBuff env e) p)
    (fun p' u' => ∃ new, BuffRun entries p u new p' u') (fun _ _ => True) u := by
  induction entries generalizing p u with
  | nil => exact ⟨[], .nil hlt⟩
  | cons x entries ih =>
    rw [List.foldlM_cons, wp_bind]
    refine wp_mono wp_initBuff ?_ fun _ _ _ => trivial
    rintro p₁ u₁ (⟨b, hb, hbaseid, rfl, rfl⟩ | ⟨base, -, -, hnone, rfl, rfl⟩)
    · refine wp_mono (ih (u := u.setBuff b _) hlt) ?_ fun _ _ _ => trivial
      rintro p' u' ⟨new, hrun⟩
      exact ⟨new, hrun.match hb hbaseid⟩
    · refine wp_mono (ih (u := u.buffMade e x.1 base) (lt_buffMade hlt)) ?_ fun _ _ _ => trivial
      rintro p' u' ⟨new, hrun⟩
      exact ⟨_, hrun.made hlt hnone⟩

/-- What a buff is, and what the entry asked for. -/
def World.buffLabel (w : World) (b : ℤ) : ℤ × Option ℤ := ((w.buffAt b).baseid, some (w.buffAt b).layers)

def Env.buffWanted (env : Env) (x : ℤ × ℤ) : ℤ × Option ℤ := (x.1, (env.buffTable x.1).map (·.clampLayers x.2))

/-- **Buffs that are right have coincided.** -/
theorem coincide_of_ok (hkeys : (entries.map Prod.fst).Nodup) (hlt : ∀ b ∈ p.buffs, b < u.nextBuff) {new : List ℤ}
    (hrun : wp (entries.foldlM (initBuff env e) p) (fun a s => a = p' ∧ s = u') (fun _ _ => False) u)
    (hnew : p'.buffs = p.buffs ++ new)
    (hperm : (new.map u'.buffLabel).Perm (entries.map env.buffWanted)) : Coincide env u.nextBuff entries := by
  induction entries generalizing p u new with
  | nil => exact trivial
  | cons x entries ih =>
    rw [List.map_cons, List.nodup_cons] at hkeys
    have hlength : new.length = entries.length + 1 := by simpa using hperm.length_eq
    rw [List.foldlM_cons, wp_bind] at hrun
    obtain ⟨p₁, u₁, hstep, hrest⟩ := exists_ok_of_wp hrun
    have hcase := @wp_initBuff env e p u x
    rw [wp_ok hstep] at hcase
    rcases hcase with ⟨b, hb, hbaseid, rfl, rfl⟩ | ⟨base, hbase, hscript, hnone, rfl, rfl⟩
    · -- no buff is made here, and then there is one too few
      have hloop := wp_and hrest (@wp_initBuffs env e _
        (u.setBuff b ((u.buffAt b).addLayers x.2)) entries hlt)
      obtain ⟨a, s, -, ⟨ha, hs⟩, new', hbuffs⟩ := exists_ok_of_wp (wp_mono hloop (fun _ _ h => h) fun _ _ h => h.1)
      rw [ha, hs] at hbuffs
      have hsame : new' = new := by
        rw [hbuffs.pack] at hnew
        exact List.append_cancel_left hnew
      have hfew := hbuffs.length
      rw [hsame] at hfew
      omega
    · have hlt₁ := @lt_buffMade e _ _ x base hlt
      have hloop := wp_and hrest (@wp_initBuffs env e
        { p with buffs := p.buffs ++ [u.nextBuff + 1] } (u.buffMade e x.1 base) entries hlt₁)
      obtain ⟨a, s, -, ⟨ha, hs⟩, new', hbuffs⟩ := exists_ok_of_wp (wp_mono hloop (fun _ _ h => h) fun _ _ h => h.1)
      rw [ha, hs] at hbuffs
      have hsame : new = (u.nextBuff + 1) :: new' := by
        rw [hbuffs.pack, List.append_assoc] at hnew
        exact (List.append_cancel_left hnew).symm
      subst hsame
      -- as many buffs are made as there are entries left, so the new buff is none of theirs
      have hmem : u.nextBuff + 1 ∈ p.buffs ++ [u.nextBuff + 1] := List.mem_append_right _ (List.mem_singleton_self _)
      have hself : (u.buffMade e x.1 base).buffAt (u.nextBuff + 1) = base.buff e u.nextBuff x.1 :=
        World.buffAt_setBuff_self ..
      have hlater : u.nextBuff ∉ entries.map Prod.fst := by
        intro hentry
        have hfew := hbuffs.short ⟨_, hmem, by rw [hself]; exact hentry⟩
        simp only [List.length_cons] at hlength
        omega
      have hkept : u'.buffAt (u.nextBuff + 1) = base.buff e u.nextBuff x.1 := by
        rw [hbuffs.kept _ hmem (by rw [hself]; exact hlater), hself]
      have hlabel : u'.buffLabel (u.nextBuff + 1) = (u.nextBuff, some (base.clampLayers x.1)) := by
        rw [World.buffLabel, hkept]
        rfl
      rw [List.map_cons, List.map_cons, hlabel] at hperm
      have hwanted : (u.nextBuff, some (base.clampLayers x.1)) = env.buffWanted x := by
        rcases List.mem_cons.1 (hperm.mem_iff.1 List.mem_cons_self) with hx | hx
        · exact hx
        · obtain ⟨y, hy, hyx⟩ := List.mem_map.1 hx
          have hkey : y.1 = u.nextBuff := (congrArg Prod.fst hyx :)
          exact absurd (List.mem_map.2 ⟨y, hy, hkey⟩) hlater
      have hkey : u.nextBuff = x.1 := congrArg Prod.fst hwanted
      have hclamp : some (base.clampLayers x.1) = (env.buffTable x.1).map (·.clampLayers x.2) := congrArg Prod.snd hwanted
      rw [hwanted] at hperm
      rw [← hkey, hbase, Option.map_some, Option.some.injEq] at hclamp
      have hnew₁ : p'.buffs = p.buffs ++ [u.nextBuff + 1] ++ new' := by
        rw [hnew, List.append_assoc]
        rfl
      exact ⟨hkey.symm, ⟨base, hbase, hscript, by rw [← hclamp, hkey]⟩,
        ih hkeys.2 hlt₁ hrest hnew₁ ((List.perm_cons _).1 hperm)⟩

/-- An entry whose base id is not there and coincides with the next identifier. -/
theorem initBuff_apply {base : BuffBase} (hnone : ∀ b ∈ p.buffs, (u.buffAt b).baseid ≠ x.1)
    (hbase : env.buffTable u.nextBuff = some base) (hscript : base.scriptFunc.isSome) (hnew : u.nextBuff + 1 ∉ p.buffs) :
    initBuff env e p x u = .ok { p with buffs := p.buffs ++ [u.nextBuff + 1] } (u.buffMade e x.1 base) := by
  have hfind : (env.pairs p.buffs).find? (fun b => (u.buffAt b).baseid = x.1) = none :=
    List.find?_eq_none.2 fun b hb => by simpa using hnone b (env.mem_pairs.1 hb)
  have hreturns : wp (initBuff env e p x) (fun _ _ => True) (fun _ _ => False) u := by
    rw [initBuff, wp_bind, wp_get, hfind]
    show wp (modify _ >>= _) _ _ u
    rw [wp_bind, wp_modify, wp_bind, buffNew, wp_bind, wp_get, wp_bind, wp_modify]
    simp only [hbase]
    rw [wp_bind, wp_assertion]
    refine ⟨fun _ => ?_, fun h => h hscript⟩
    rw [wp_bind, wp_modify, wp_bind, layersAdd, wp_modify, wp_pure, wp_bind, wp_assertion]
    exact ⟨fun _ => trivial, fun h => h hnew⟩
  have hboth := wp_and hreturns (@wp_initBuff env e p u x)
  obtain ⟨p', u', hok, -, hcase⟩ := exists_ok_of_wp (wp_mono hboth (fun _ _ h => h) fun _ _ h => h.1)
  rcases hcase with ⟨b, hb, hbaseid, -⟩ | ⟨base', hbase', -, -, rfl, rfl⟩
  · exact absurd hbaseid (hnone b hb)
  · cases hbase.symm.trans hbase'
    exact hok

/-- **Buffs that coincide are right.** -/
theorem wp_initBuffs_of_coincide (hkeys : (entries.map Prod.fst).Nodup)
    (hlt : ∀ b ∈ p.buffs, b < u.nextBuff ∧ (u.buffAt b).baseid < u.nextBuff) (hco : Coincide env u.nextBuff entries) :
    wp (entries.foldlM (initBuff env e) p) (fun p' u' => ∃ new, BuffRun entries p u new p' u' ∧
      new.map u'.buffLabel = entries.map env.buffWanted) (fun _ _ => False) u := by
  induction entries generalizing p u with
  | nil => exact ⟨[], .nil fun b hb => (hlt b hb).1, rfl⟩
  | cons x entries ih =>
    rw [List.map_cons, List.nodup_cons] at hkeys
    obtain ⟨hkey, ⟨base, hbase, hscript, hclamp⟩, hrest⟩ := hco
    have hnone : ∀ b ∈ p.buffs, (u.buffAt b).baseid ≠ x.1 := fun b hb => by
      have := (hlt b hb).2
      omega
    have hnew : u.nextBuff + 1 ∉ p.buffs := fun hb => by
      have := (hlt _ hb).1
      omega
    have hself : (u.buffMade e x.1 base).buffAt (u.nextBuff + 1) = base.buff e u.nextBuff x.1 :=
      World.buffAt_setBuff_self ..
    have hold : ∀ b ∈ p.buffs, (u.buffMade e x.1 base).buffAt b = u.buffAt b := fun b hb =>
      World.buffAt_setBuff_of_ne _ (fun h => hnew (by rw [← h]; exact hb)) _
    have hlt₁ : ∀ b ∈ p.buffs ++ [u.nextBuff + 1], b < (u.buffMade e x.1 base).nextBuff ∧
        ((u.buffMade e x.1 base).buffAt b).baseid < (u.buffMade e x.1 base).nextBuff := by
      intro b hb
      refine ⟨lt_buffMade (fun b hb => (hlt b hb).1) b hb, ?_⟩
      show _ < u.nextBuff + 2
      rcases List.mem_append.1 hb with hb | hb
      · have := (hlt b hb).2
        rw [hold b hb]
        omega
      · rw [List.mem_singleton.1 hb, hself]
        show u.nextBuff < u.nextBuff + 2
        omega
    rw [List.foldlM_cons, wp_bind, wp_ok (initBuff_apply hnone hbase hscript hnew)]
    refine wp_mono (ih (u := u.buffMade e x.1 base) hkeys.2 hlt₁ hrest) ?_ fun _ _ h => h
    rintro p' u' ⟨new, hrun, hlabels⟩
    refine ⟨_, hrun.made (fun b hb => (hlt b hb).1) hnone, ?_⟩
    have hlater : ((u.buffMade e x.1 base).buffAt (u.nextBuff + 1)).baseid ∉ entries.map Prod.fst := by
      rw [hself]
      exact hkey ▸ hkeys.1
    have hkept := hrun.kept _ (List.mem_append_right _ (List.mem_singleton_self _)) hlater
    have hlabel : u'.buffLabel (u.nextBuff + 1) = env.buffWanted x := by
      rw [World.buffLabel, hkept, hself, Env.buffWanted, hkey, hbase, Option.map_some, ← hclamp, ← hkey]
      rfl
    rw [List.map_cons, List.map_cons, hlabel, hlabels]

end Buffs

/-- **When `pack_init` makes of a row what it is to make of it**: if and only if the cards, items and puppets
can be made, and the identifiers taken for the buffs then coincide with their base ids. -/
theorem packInit_iff (side : Side) (span : Span) (fuel : ℕ) (e baseid : ℤ) (base : EntityBase) (w : World) :
    wp (packInit env (entityNew env side span fuel (some e)) e baseid base span) (InitialPack env base)
        (fun _ _ => False) w ↔
      wp (packInitGoods env (entityNew env side span fuel (some e)) e baseid base span)
        (fun _ u => Coincide env u.nextBuff (env.entries base.initBuffs)) (fun _ _ => False) w := by
  have hkeys := env.nodup_entries base.initBuffs
  have hgoods := @furnished_packInitGoods env side span fuel (some e) e baseid base w
  rw [wp_packInit]
  constructor
  · intro h
    refine wp_mono (wp_and h hgoods) ?_ fun _ _ h => h.1
    rintro p u ⟨hloop, hfurnished⟩
    have hlt : ∀ b ∈ p.buffs, b < u.nextBuff := by
      rw [hfurnished.buffs]
      exact nofun
    obtain ⟨p', u', hok, hinitial⟩ := exists_ok_of_wp hloop
    refine @coincide_of_ok env e p p' u u' _ hkeys hlt p'.buffs ?_ ?_ hinitial.buffs
    · rw [wp_ok hok]
      exact ⟨rfl, rfl⟩
    · rw [hfurnished.buffs, List.nil_append]
  · intro h
    refine wp_mono (wp_and h hgoods) ?_ fun _ _ h => h.1
    rintro p u ⟨hco, hfurnished⟩
    have hlt : ∀ b ∈ p.buffs, b < u.nextBuff ∧ (u.buffAt b).baseid < u.nextBuff := by
      rw [hfurnished.buffs]
      exact nofun
    refine wp_mono (wp_initBuffs_of_coincide hkeys hlt hco) ?_ fun _ _ h => h
    rintro p' u' ⟨new, hrun, hlabels⟩
    have hafter := hfurnished.grown hrun.grown
    have hbuffs : p'.buffs = new := by
      rw [hrun.pack, hfurnished.buffs]
      rfl
    have hnodup := hrun.nodup (by rw [hfurnished.buffs]; exact List.nodup_nil)
    have hpack := hrun.pack
    refine ⟨?_, ?_, ?_, ?_, hnodup, ?_⟩
    · rw [hpack]
      exact hafter.cardsNodup
    · rw [hpack]
      show (p.cards.map _).Perm _
      rw [hafter.cards]
      exact env.pairs_perm _
    · rw [hpack]
      exact hafter.items
    · rw [hpack]
      intro x hx
      obtain ⟨t, -, ht⟩ := hafter.puppets x hx
      exact ⟨t, ht⟩
    · rw [hbuffs]
      exact .of_eq hlabels

/-- A row with the buff 3001, of which the entity is to have one layer. -/
def strongRow : EntityBase := { initBuffs := [(3001, 1)] }

/-- The buff that is made has the first identifier for a base id, and as many layers as it may have. -/
theorem initialPack_strongRow :
    ¬ wp (packInit plainEnv (entityNew plainEnv .allies .copy 1 (some 5)) 5 1 strongRow .copy)
      (InitialPack plainEnv strongRow) (fun _ _ => False) {} := by
  intro h
  have hmade : wp (packInit plainEnv (entityNew plainEnv .allies .copy 1 (some 5)) 5 1 strongRow .copy)
      (fun p w => p.buffs.map (fun b => ((w.buffAt b).baseid, some (w.buffAt b).layers)) = [(0, some 999)])
      (fun _ _ => True) {} := by
    decide +kernel
  obtain ⟨p, w, -, hinitial, hbuffs⟩ := exists_ok_of_wp (wp_mono (wp_and h hmade) (fun _ _ h => h) fun _ _ h => h.1)
  have hperm := hinitial.buffs
  rw [hbuffs] at hperm
  revert hperm
  decide +kernel

end Slam.Game
