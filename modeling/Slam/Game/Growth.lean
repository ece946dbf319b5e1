import Slam.Game.Creation
import Slam.Game.Steps
import Slam.Lib.Assoc

/-!
# What the making of an entity leaves

`Entity:new` takes new identifiers for the entity, its cards and items and its puppets, and writes
nothing else: `Grown` says that all that was there before is as it was. The new entity is complete: the
cards and items of its pack have rows that `Card:new` and `Item:new` accept (`World.Stocked`), and its
puppets, and theirs in turn, are entities of their own (`World.Sound`), made after it, so that its
destructor reaches each of them once.
-/

namespace Slam.Game

open Raising

variable {env : Env}

/-! ### Growth -/

/-- What was there before is as it was. -/
structure Grown (w w' : World) : Prop where
  entityAt : ∀ e < w.nextEntity, w'.entityAt e = w.entityAt e
  cardAt : ∀ c < w.nextCard, w'.cardAt c = w.cardAt c
  itemAt : ∀ i < w.nextItem, w'.itemAt i = w.itemAt i
  nextEntity : w.nextEntity ≤ w'.nextEntity
  nextCard : w.nextCard ≤ w'.nextCard
  nextItem : w.nextItem ≤ w'.nextItem
  frame : ({ w'.frame with nextEntity := 0 } : World) = { w.frame with nextEntity := 0 }

namespace Grown

variable {w w' w'' : World}

theorem refl (w : World) : Grown w w where
  entityAt _ _ := rfl
  cardAt _ _ := rfl
  itemAt _ _ := rfl
  nextEntity := le_refl _
  nextCard := le_refl _
  nextItem := le_refl _
  frame := rfl

theorem trans (h : Grown w w') (h' : Grown w' w'') : Grown w w'' where
  entityAt e he := (h'.entityAt e (he.trans_le h.nextEntity)).trans (h.entityAt e he)
  cardAt c hc := (h'.cardAt c (hc.trans_le h.nextCard)).trans (h.cardAt c hc)
  itemAt i hi := (h'.itemAt i (hi.trans_le h.nextItem)).trans (h.itemAt i hi)
  nextEntity := h.nextEntity.trans h'.nextEntity
  nextCard := h.nextCard.trans h'.nextCard
  nextItem := h.nextItem.trans h'.nextItem
  frame := h'.frame.trans h.frame

theorem pack (h : Grown w w') {e : ℤ} (he : e < w.nextEntity) : w'.pack e = w.pack e := by
  rw [World.pack, h.entityAt e he, World.pack]

theorem scene (h : Grown w w') : w'.scene = w.scene := (congrArg World.scene h.frame :)

theorem entityMaster (h : Grown w w') : w'.entityMaster = w.entityMaster := (congrArg World.entityMaster h.frame :)

theorem trace (h : Grown w w') : w'.trace = w.trace := (congrArg World.trace h.frame :)

end Grown

/-- `Card:new` accepts the base id. -/
def Env.HasCard (env : Env) (baseid : ℤ) : Prop := ∃ base, env.cardTable baseid = some base ∧ base.scriptFunc.isSome

/-- `Item:new` accepts the base id. -/
def Env.HasItem (env : Env) (baseid : ℤ) : Prop := ∃ base, env.itemTable baseid = some base ∧ base.scriptFunc.isSome

theorem grown_cardNew (baseid : ℤ) (w : World) :
    wp (cardNew env baseid) (fun c w' => Grown w w' ∧ c = w.nextCard ∧ c < w'.nextCard ∧
      (w'.cardAt c).baseid = baseid ∧ env.HasCard baseid) (fun _ w' => Grown w w') w := by
  have htake : Grown w { w with nextCard := w.nextCard + 1 } := { Grown.refl w with nextCard := by simp }
  have hnew (base : CardBase) : Grown w
      (World.setCard { w with nextCard := w.nextCard + 1 } w.nextCard { baseid := baseid, base := base }) :=
    { htake with cardAt := fun c hc => by simp [World.setCard, Function.update_of_ne (ne_of_lt hc)] }
  simp only [cardNew, wp_bind, wp_get, wp_modify]
  split
  · exact htake
  · rename_i base hbase
    simp only [wp_bind, wp_modify, wp_assertion, wp_pure]
    refine ⟨fun hscript => ⟨hnew base, trivial, ?_, ?_, base, hbase, hscript⟩, fun _ => hnew base⟩
    · simp [World.setCard]
    · simp [World.setCard]

/-- The world with a new item. -/
def World.newItem (w : World) (x : Item) : World := World.setItem { w with nextItem := w.nextItem + 1 } w.nextItem x

theorem World.itemAt_newItem (w : World) (x : Item) : (w.newItem x).itemAt w.nextItem = x := Function.update_self ..

theorem Grown.newItem (w : World) (x : Item) : Grown w (w.newItem x) :=
  { Grown.refl w with
    nextItem := by simp [World.newItem, World.setItem]
    itemAt := fun i hi => by simp [World.newItem, World.setItem, Function.update_of_ne (ne_of_lt hi)] }

/-- What `Item:new` makes. -/
def ItemBase.item (base : ItemBase) (baseid number : ℤ) : Item :=
  { baseid := baseid, base := base, number := base.clampNumber number, useTimes := 0 }

theorem itemNew_apply {baseid : ℤ} {base : ItemBase} (hbase : env.itemTable baseid = some base)
    (hscript : base.scriptFunc.isSome) (number : ℤ) (w : World) :
    itemNew env baseid number w = .ok w.nextItem (w.newItem (base.item baseid number)) := by
  rw [itemNew, hbase]
  show (assertion _ _ >>= fun _ => pure w.nextItem : Run ℤ) _ = _
  rw [bind_of_ok (assertion_apply hscript _)]
  rfl

theorem grown_itemNew (baseid number : ℤ) (w : World) :
    wp (itemNew env baseid number) (fun i w' => Grown w w' ∧ i = w.nextItem ∧ i < w'.nextItem ∧
      (w'.itemAt i).baseid = baseid ∧ env.HasItem baseid) (fun _ w' => Grown w w') w := by
  rw [itemNew]
  split
  · exact .refl w
  · rename_i base hbase
    have hnew := Grown.newItem w (base.item baseid number)
    simp only [wp_bind, wp_get, wp_modify, wp_assertion, wp_pure]
    refine ⟨fun hscript => ⟨hnew, trivial, ?_, ?_, base, hbase, hscript⟩, fun _ => hnew⟩
    · simp [World.setItem]
    · simp [World.setItem]

theorem grown_buffNew (e baseid layers : ℤ) (w : World) :
    wp (buffNew env e baseid layers) (fun _ w' => Grown w w') (fun _ w' => Grown w w') w := by
  simp only [buffNew, wp_bind, wp_get, wp_modify]
  split
  · exact { Grown.refl w with }
  · simp only [wp_bind, wp_modify, wp_assertion, wp_pure, layersAdd]
    exact ⟨fun _ => { Grown.refl w with }, fun _ => { Grown.refl w with }⟩

/-! ### The line-up of a pack -/

/-- The puppets of a pack and its master, wherever they are. -/
def Pack.lineUp (p : Pack) : List ℤ := p.puppets ++ p.placeholders.map Prod.snd

/-- No placeholder is taken twice, and there are no others. -/
structure Slots (l : List (ℤ × ℤ)) : Prop where
  nodup : (l.map Prod.fst).Nodup
  legal : ∀ x ∈ l, x.1 ∈ [Placeholder.front, Placeholder.middle, Placeholder.back]

namespace Slots

variable {l : List (ℤ × ℤ)}

theorem filter (h : Slots l) (q : ℤ × ℤ → Bool) : Slots (l.filter q) :=
  ⟨Assoc.nodup_filter h.nodup q, fun x hx => h.legal x (List.mem_filter.1 hx).1⟩

theorem concat (h : Slots l) {slot : ℤ} (hfree : l.lookup slot = none)
    (hlegal : slot ∈ [Placeholder.front, Placeholder.middle, Placeholder.back]) (target : ℤ) :
    Slots (l ++ [(slot, target)]) := by
  refine ⟨Assoc.nodup_concat h.nodup (Assoc.lookup_eq_none.1 hfree), fun x hx => ?_⟩
  rcases List.mem_append.1 hx with hx | hx
  · exact h.legal x hx
  · rw [List.mem_singleton.1 hx]
    exact hlegal

end Slots

/-- No puppet is in two places, and the master stands at a placeholder. -/
structure Pack.LineUp (p : Pack) (e : ℤ) : Prop where
  slots : Slots p.placeholders
  nodup : p.lineUp.Nodup
  master : e ∈ p.placeholders.map Prod.snd

namespace Pack.LineUp

variable {p p' : Pack} {e : ℤ}

theorem notMem_puppets (h : p.LineUp e) : e ∉ p.puppets := fun hmem =>
  (List.nodup_append.1 h.nodup).2.2 e hmem e h.master rfl

/-- Moving entities keeps the line-up if the master does not get into the bag. -/
theorem of_perm (h : p.LineUp e) (hperm : p'.lineUp.Perm p.lineUp) (hslots : Slots p'.placeholders)
    (hbag : e ∉ p'.puppets) : p'.LineUp e := by
  refine ⟨hslots, hperm.nodup_iff.2 h.nodup, ?_⟩
  have hmem : e ∈ p'.lineUp := hperm.mem_iff.2 (List.mem_append_right _ h.master)
  exact (List.mem_append.1 hmem).resolve_left hbag

/-- Another entity joins the line-up. -/
theorem insert {t : ℤ} (h : p.LineUp e) (hperm : p'.lineUp.Perm (t :: p.lineUp)) (ht : t ∉ p.lineUp)
    (hslots : Slots p'.placeholders) (hsub : (p.placeholders.map Prod.snd).Sublist (p'.placeholders.map Prod.snd)) :
    p'.LineUp e :=
  ⟨hslots, hperm.nodup_iff.2 (List.nodup_cons.2 ⟨ht, h.nodup⟩), hsub.subset h.master⟩

/-- The line-up consists of the bag and the placeholders. -/
theorem congr (h : p.LineUp e) (hpuppets : p'.puppets = p.puppets) (hplaceholders : p'.placeholders = p.placeholders) :
    p'.LineUp e := by
  refine ⟨?_, ?_, ?_⟩
  · rw [hplaceholders]
    exact h.slots
  · rw [Pack.lineUp, hpuppets, hplaceholders]
    exact h.nodup
  · rw [hplaceholders]
    exact h.master

end Pack.LineUp

/-! ### Entities of their own -/

/-- An entity and those that its destructor reaches, to a depth. -/
def World.kin (w : World) : ℕ → ℤ → List ℤ
  | 0, _ => []
  | n + 1, e => e :: ((w.pack e).dependents e).flatMap (w.kin n)

/-- The entity is not freed, and neither are those that depend on it, which have been made after it. -/
def World.Sound (w : World) : ℕ → ℤ → Prop
  | 0, _ => False
  | n + 1, e => (w.entityAt e).freed = false ∧ e < w.nextEntity ∧
      ∀ t ∈ (w.pack e).dependents e, e < t ∧ w.Sound n t

namespace World.Sound

variable {w w' : World} {n : ℕ} {e : ℤ}

theorem lt (h : w.Sound n e) : e < w.nextEntity := by
  cases n with
  | zero => exact h.elim
  | succ n => exact h.2.1

theorem mem_kin (h : w.Sound n e) : e ∈ w.kin n e := by
  cases n with
  | zero => exact h.elim
  | succ n => exact List.mem_cons_self ..

/-- Those that depend on an entity are between it and the next one to be made. -/
theorem of_mem_kin (h : w.Sound n e) {t : ℤ} (ht : t ∈ w.kin n e) :
    e ≤ t ∧ t < w.nextEntity ∧ (w.entityAt t).freed = false := by
  induction n generalizing e with
  | zero => exact h.elim
  | succ n ih =>
    rcases List.mem_cons.1 ht with rfl | ht
    · exact ⟨le_refl _, h.2.1, h.1⟩
    · obtain ⟨s, hs, hst⟩ := List.mem_flatMap.1 ht
      obtain ⟨hlt, hsound⟩ := h.2.2 s hs
      obtain ⟨hle, hnext, hfreed⟩ := ih hsound hst
      exact ⟨(hlt.trans_le hle).le, hnext, hfreed⟩

/-- Nothing changes for an entity as long as it and its dependents stay. -/
theorem congr (h : w.Sound n e) (hnext : w.nextEntity ≤ w'.nextEntity)
    (hfreed : ∀ t ∈ w.kin n e, (w'.entityAt t).freed = (w.entityAt t).freed)
    (hdependents : ∀ t ∈ w.kin n e, (w'.pack t).dependents t = (w.pack t).dependents t) :
    w'.Sound n e ∧ w'.kin n e = w.kin n e := by
  induction n generalizing e with
  | zero => exact h.elim
  | succ n ih =>
    have hself : e ∈ w.kin (n + 1) e := List.mem_cons_self ..
    have hdeps := hdependents e hself
    have hsub {s : ℤ} (hs : s ∈ (w.pack e).dependents e) : w'.Sound n s ∧ w'.kin n s = w.kin n s := by
      have hmem {t : ℤ} (ht : t ∈ w.kin n s) : t ∈ w.kin (n + 1) e :=
        List.mem_cons_of_mem _ (List.mem_flatMap.2 ⟨s, hs, ht⟩)
      exact ih (h.2.2 s hs).2 (fun t ht => hfreed t (hmem ht)) fun t ht => hdependents t (hmem ht)
    refine ⟨⟨(hfreed e hself).trans h.1, h.2.1.trans_le hnext, ?_⟩, ?_⟩
    · rw [hdeps]
      exact fun s hs => ⟨(h.2.2 s hs).1, (hsub hs).1⟩
    · rw [World.kin, World.kin, hdeps]
      congr 1
      exact List.flatMap_congr fun s hs => (hsub hs).2

theorem grown (h : w.Sound n e) (hgrown : Grown w w') : w'.Sound n e ∧ w'.kin n e = w.kin n e := by
  have hsame {t : ℤ} (ht : t ∈ w.kin n e) : w'.entityAt t = w.entityAt t := hgrown.entityAt t (h.of_mem_kin ht).2.1
  refine h.congr hgrown.nextEntity (fun t ht => by rw [hsame ht]) fun t ht => ?_
  rw [World.pack, hsame ht, World.pack]

/-- The depth is at most the number of entities made since. -/
theorem deep (h : w.Sound n e) {k : ℕ} (hk : (w.nextEntity - e).toNat ≤ k) :
    w.Sound k e ∧ w.kin k e = w.kin n e := by
  induction n generalizing e k with
  | zero => exact h.elim
  | succ n ih =>
    have hlt := h.2.1
    cases k with
    | zero => omega
    | succ k =>
      have hsub {s : ℤ} (hs : s ∈ (w.pack e).dependents e) : w.Sound k s ∧ w.kin k s = w.kin n s := by
        obtain ⟨hes, hsound⟩ := h.2.2 s hs
        exact ih hsound (by omega)
      refine ⟨⟨h.1, hlt, fun s hs => ⟨(h.2.2 s hs).1, (hsub hs).1⟩⟩, ?_⟩
      rw [World.kin, World.kin]
      congr 1
      exact List.flatMap_congr fun s hs => (hsub hs).2

end World.Sound

/-! ### The pack of a new entity -/

/-- What a pack holds has been made and can be made again. -/
structure World.Stocked (w : World) (env : Env) (p : Pack) : Prop where
  cards : ∀ c ∈ p.cards, c < w.nextCard ∧ env.HasCard (w.cardAt c).baseid
  items : ∀ i ∈ p.items, i < w.nextItem ∧ env.HasItem (w.itemAt i).baseid
  equips : ∀ x ∈ p.equips, x.2 < w.nextItem ∧ env.HasItem (w.itemAt x.2).baseid

theorem World.Stocked.grown {w w' : World} {p : Pack} (h : w.Stocked env p) (hgrown : Grown w w') :
    w'.Stocked env p where
  cards c hc := ⟨(h.cards c hc).1.trans_le hgrown.nextCard, by rw [hgrown.cardAt c (h.cards c hc).1]; exact (h.cards c hc).2⟩
  items i hi := ⟨(h.items i hi).1.trans_le hgrown.nextItem, by rw [hgrown.itemAt i (h.items i hi).1]; exact (h.items i hi).2⟩
  equips x hx := ⟨(h.equips x hx).1.trans_le hgrown.nextItem,
    by rw [hgrown.itemAt x.2 (h.equips x hx).1]; exact (h.equips x hx).2⟩

/-- The pack of the entity `e` while `pack_init` fills it from the world `w₀` on; its puppets are made
to the depth `n`. -/
structure Filling (env : Env) (n : ℕ) (e : ℤ) (span : Span) (w₀ : World) (p : Pack) (w : World) : Prop where
  grown : Grown w₀ w
  span : p.span = span
  stocked : w.Stocked env p
  fresh : ∀ i ∈ p.items, w₀.nextItem ≤ i
  sound : ∀ t ∈ p.dependents e, e < t ∧ w.Sound n t
  nodup : ((p.dependents e).flatMap (w.kin n)).Nodup
  lineUp : p.LineUp e

namespace Filling

variable {n : ℕ} {e : ℤ} {span : Span} {w₀ w w' : World} {p p' : Pack}

/-- The world may grow. -/
theorem world (h : Filling env n e span w₀ p w) (hgrown : Grown w w') : Filling env n e span w₀ p w' where
  grown := h.grown.trans hgrown
  span := h.span
  stocked := h.stocked.grown hgrown
  fresh := h.fresh
  sound t ht := ⟨(h.sound t ht).1, ((h.sound t ht).2.grown hgrown).1⟩
  nodup := by
    rw [List.flatMap_congr fun t ht => ((h.sound t ht).2.grown hgrown).2]
    exact h.nodup
  lineUp := h.lineUp

/-- The pack may change apart from its puppets. -/
theorem pack (h : Filling env n e span w₀ p w) (hspan : p'.span = p.span) (hstocked : w.Stocked env p')
    (hfresh : ∀ i ∈ p'.items, w₀.nextItem ≤ i) (hpuppets : p'.puppets = p.puppets)
    (hplaceholders : p'.placeholders = p.placeholders) : Filling env n e span w₀ p' w where
  grown := h.grown
  span := hspan.trans h.span
  stocked := hstocked
  fresh := hfresh
  sound := by rw [Pack.dependents, hpuppets, hplaceholders]; exact h.sound
  nodup := by rw [Pack.dependents, hpuppets, hplaceholders]; exact h.nodup
  lineUp := h.lineUp.congr hpuppets hplaceholders

/-- Nobody in the line-up has yet to be made. -/
theorem lt_of_mem (h : Filling env n e span w₀ p w) (he : e < w.nextEntity) {t : ℤ} (ht : t ∈ p.lineUp) :
    t < w.nextEntity := by
  by_cases hte : t = e
  · rw [hte]
    exact he
  · exact (h.sound t (List.mem_filter.2 ⟨ht, decide_eq_true hte⟩)).2.lt

theorem addItem (h : Filling env n e span w₀ p w) {i : ℤ} (hi : i < w.nextItem)
    (hitem : env.HasItem (w.itemAt i).baseid) (hfresh : w₀.nextItem ≤ i) :
    Filling env n e span w₀ { p with items := p.items ++ [i] } w := by
  have hmem {j : ℤ} (hj : j ∈ p.items ++ [i]) : j ∈ p.items ∨ j = i := by simpa using hj
  refine h.pack rfl ⟨h.stocked.cards, fun j hj => ?_, h.stocked.equips⟩ (fun j hj => ?_) rfl rfl
  · rcases hmem hj with hj | rfl
    · exact h.stocked.items j hj
    · exact ⟨hi, hitem⟩
  · rcases hmem hj with hj | rfl
    · exact h.fresh j hj
    · exact hfresh

/-- A puppet is added that has been made since. -/
theorem addDependent (h : Filling env n e span w₀ p w) (he : e < w.nextEntity) {t : ℤ} (ht : t = w.nextEntity)
    (hgrown : Grown w w') (hsound : w'.Sound n t) (hnodup : (w'.kin n t).Nodup) (hspan : p'.span = p.span)
    (hcards : p'.cards = p.cards) (hitems : p'.items = p.items) (hequips : p'.equips = p.equips)
    (hlineUp : p'.LineUp e) (hperm : p'.lineUp.Perm (t :: p.lineUp)) : Filling env n e span w₀ p' w' := by
  have h' := h.world hgrown
  have hdependents : (p'.dependents e).Perm (t :: p.dependents e) := by
    refine (hperm.filter _).trans ?_
    have hne : t ≠ e := by omega
    rw [List.filter_cons, if_pos (decide_eq_true hne)]
    exact .refl _
  refine ⟨h'.grown, hspan.trans h'.span, ⟨?_, ?_, ?_⟩, ?_, fun s hs => ?_, ?_, hlineUp⟩
  · rw [hcards]
    exact h'.stocked.cards
  · rw [hitems]
    exact h'.stocked.items
  · rw [hequips]
    exact h'.stocked.equips
  · rw [hitems]
    exact h'.fresh
  · rcases List.mem_cons.1 (hdependents.mem_iff.1 hs) with rfl | hs
    · exact ⟨by omega, hsound⟩
    · exact h'.sound s hs
  · refine (hdependents.flatMap_right _).nodup_iff.2 ?_
    rw [List.flatMap_cons]
    refine List.Nodup.append hnodup h'.nodup fun s hs hs' => ?_
    -- What depends on the new puppet has been made after what depends on the others.
    obtain ⟨r, hr, hrs⟩ := List.mem_flatMap.1 hs'
    rw [((h.sound r hr).2.grown hgrown).2] at hrs
    have hold := ((h.sound r hr).2.of_mem_kin hrs).2.1
    have hnew := (hsound.of_mem_kin hs).1
    omega

end Filling

section Init

variable {n : ℕ} {e : ℤ} {span : Span} {w₀ w : World} {p : Pack}

theorem filling_initCard (h : Filling env n e span w₀ p w) (baseid : ℤ) :
    wp (initCard env p baseid) (Filling env n e span w₀) (fun _ w' => Grown w₀ w') w := by
  rw [initCard, wp_bind]
  refine wp_mono (grown_cardNew baseid w) ?_ fun _ _ hgrown => h.grown.trans hgrown
  rintro c w' ⟨hgrown, -, hc, hbaseid, hcard⟩
  have h' := h.world hgrown
  rw [wp_bind, wp_assertion]
  refine ⟨fun _ => h'.pack rfl ⟨fun c' hc' => ?_, h'.stocked.items, h'.stocked.equips⟩ h'.fresh rfl rfl,
    fun _ => h'.grown⟩
  rcases List.mem_append.1 hc' with hc' | hc'
  · exact h'.stocked.cards c' hc'
  · rw [List.mem_singleton.1 hc', hbaseid]
    exact ⟨hc, hcard⟩

theorem filling_initItemLoop (baseid : ℤ) (slots : ℕ) (number : ℤ) (h : Filling env n e span w₀ p w) :
    wp (initItemLoop env baseid slots number p) (Filling env n e span w₀) (fun _ w' => Grown w₀ w') w := by
  induction slots generalizing number p w with
  | zero => exact h
  | succ slots ih =>
    rw [initItemLoop, wp_ite]
    refine ⟨fun _ => h, fun _ => ?_⟩
    rw [wp_bind]
    refine wp_mono (grown_itemNew baseid number w) ?_ fun _ _ hgrown => h.grown.trans hgrown
    rintro i w' ⟨hgrown, rfl, hi, hbaseid, hitem⟩
    have h' := (h.world hgrown).addItem hi (by rw [hbaseid]; exact hitem) h.grown.nextItem
    rw [wp_bind, wp_assertion]
    refine ⟨fun _ => ?_, fun _ => h'.grown⟩
    rw [wp_bind, wp_get, wp_ite]
    exact ⟨fun _ => h', fun _ => ih _ h'⟩

/-- Writing the number of an item that has been made since. -/
theorem Filling.setNumber (h : Filling env n e span w₀ p w) {i : ℤ} (hi : i ∈ p.items) (number : ℤ) :
    wp (Game.setNumber i number) (fun _ w' => Filling env n e span w₀ p w') (fun _ _ => False) w := by
  obtain ⟨x, hx⟩ : ∃ x, x = ({ w.itemAt i with number := (w.itemAt i).base.clampNumber number } : Item) := ⟨_, rfl⟩
  show Filling env n e span w₀ p (w.setItem i { w.itemAt i with number := (w.itemAt i).base.clampNumber number })
  rw [← hx]
  have hbaseid (j : ℤ) : ((w.setItem i x).itemAt j).baseid = (w.itemAt j).baseid := by
    by_cases hj : j = i
    · rw [hj, hx]
      simp [World.setItem]
    · simp [World.setItem, Function.update_of_ne hj]
  have hkin {t : ℤ} (ht : t ∈ p.dependents e) : (w.setItem i x).Sound n t ∧ (w.setItem i x).kin n t = w.kin n t :=
    (h.sound t ht).2.congr (le_refl _) (fun _ _ => rfl) fun _ _ => rfl
  refine ⟨{ h.grown with itemAt := fun j hj => ?_ }, h.span, ⟨h.stocked.cards, fun j hj => ?_, fun x hx => ?_⟩,
    h.fresh, fun t ht => ?_, ?_, h.lineUp⟩
  · have hne : j ≠ i := by
      rintro rfl
      exact absurd (h.fresh j hi) (not_le.2 hj)
    simp only [World.setItem, Function.update_of_ne hne]
    exact h.grown.itemAt j hj
  · rw [hbaseid]
    exact h.stocked.items j hj
  · rw [hbaseid]
    exact h.stocked.equips x hx
  · exact ⟨(h.sound t ht).1, (hkin ht).1⟩
  · rw [List.flatMap_congr fun t ht => (hkin ht).2]
    exact h.nodup

theorem filling_initItem (base : EntityBase) (entry : ℤ × ℤ) (h : Filling env n e span w₀ p w) :
    wp (initItem env base p entry) (Filling env n e span w₀) (fun _ w' => Grown w₀ w') w := by
  rw [initItem, wp_bind, wp_get]
  split
  · exact filling_initItemLoop _ _ _ h
  · rename_i i hfind
    have hi : i ∈ p.items := env.mem_pairs.1 (List.mem_of_find?_eq_some hfind)
    rw [wp_bind]
    refine wp_mono (h.setNumber hi _) (fun _ w' h' => ?_) fun _ _ hfalse => hfalse.elim
    rw [wp_bind, wp_get]
    exact filling_initItemLoop _ _ _ h'

theorem filling_initBuff (entry : ℤ × ℤ) (h : Filling env n e span w₀ p w) :
    wp (initBuff env e p entry) (Filling env n e span w₀) (fun _ w' => Grown w₀ w') w := by
  rw [initBuff, wp_bind, wp_get]
  split
  · rw [wp_bind, layersAdd, wp_modify]
    exact h.world { Grown.refl w with }
  · rw [wp_bind, wp_modify, wp_bind]
    have hnext : Grown w { w with nextBuff := w.nextBuff + 1 } := { Grown.refl w with }
    refine wp_mono (grown_buffNew e w.nextBuff entry.1 _) ?_ fun _ _ hgrown => h.grown.trans (hnext.trans hgrown)
    intro b w' hgrown
    have h' := h.world (hnext.trans hgrown)
    rw [wp_bind, wp_assertion]
    exact ⟨fun _ => h'.pack rfl ⟨h'.stocked.cards, h'.stocked.items, h'.stocked.equips⟩ h'.fresh rfl rfl,
      fun _ => h'.grown⟩

/-- A puppet is made and put into the pack; `new` is known to make entities of their own. -/
theorem filling_initPuppet {new : ℤ → Run ℤ} (hnew : ∀ baseid w, wp (new baseid)
      (fun t w' => t = w.nextEntity ∧ Grown w w' ∧ w'.Sound n t ∧ (w'.kin n t).Nodup) (fun _ w' => Grown w w') w)
    (baseid : ℤ) (entry : ℤ × ℤ) (he : e < w₀.nextEntity) (h : Filling env n e span w₀ p w) :
    wp (initPuppet new baseid p entry) (Filling env n e span w₀) (fun _ w' => Grown w₀ w') w := by
  rw [initPuppet, wp_bind, wp_assertion]
  refine ⟨fun _ => ?_, fun _ => h.grown⟩
  rw [wp_bind]
  refine wp_mono (hnew entry.1 w) ?_ fun _ _ hgrown => h.grown.trans hgrown
  rintro t w' ⟨ht, hgrown, hsound, hnodup⟩
  have he' : e < w.nextEntity := he.trans_le h.grown.nextEntity
  have hgrown' := h.grown.trans hgrown
  have hnew' : t ∉ p.lineUp := fun hmem => absurd (h.lt_of_mem he' hmem) (by omega)
  rw [wp_ite]
  refine ⟨fun _ => ?_, fun _ => ?_⟩
  · rw [wp_bind, wp_assertion]
    refine ⟨fun _ => ?_, fun _ => hgrown'⟩
    have hperm : (Pack.lineUp { p with puppets := p.puppets ++ [t] }).Perm (t :: p.lineUp) := by
      rw [Pack.lineUp, List.append_assoc]
      exact List.perm_middle
    have hlineUp := h.lineUp.insert hperm hnew' h.lineUp.slots (List.Sublist.refl _)
    exact h.addDependent he' ht hgrown hsound hnodup rfl rfl rfl rfl hlineUp hperm
  · rw [wp_bind, wp_assertion]
    refine ⟨fun hlegal => ?_, fun _ => hgrown'⟩
    rw [wp_bind, wp_assertion]
    refine ⟨fun hfree => ?_, fun _ => hgrown'⟩
    have hperm : (Pack.lineUp { p with placeholders := p.placeholders ++ [(entry.2, t)] }).Perm (t :: p.lineUp) := by
      rw [Pack.lineUp, List.map_append, ← List.append_assoc]
      exact List.perm_append_singleton ..
    have hlineUp := h.lineUp.insert hperm hnew' (h.lineUp.slots.concat hfree (by simpa using hlegal) t)
      (by rw [List.map_append]; exact List.sublist_append_left ..)
    exact h.addDependent he' ht hgrown hsound hnodup rfl rfl rfl rfl hlineUp hperm

end Init

/-- What `Entity:new` returns: an entity of its own with a pack of the given span. -/
structure Made (env : Env) (baseid : ℤ) (side : Side) (span : Span) (n : ℕ) (e : ℤ) (w : World) : Prop where
  baseid : (w.entityAt e).baseid = baseid
  side : (w.entityAt e).side = side
  death : (w.entityAt e).death = false
  backup : (w.entityAt e).backup = none
  span : (w.pack e).span = span
  stocked : w.Stocked env (w.pack e)
  sound : w.Sound n e
  nodup : (w.kin n e).Nodup
  lineUp : (w.pack e).LineUp e

theorem Pack.dependents_initial (e : ℤ) (base : EntityBase) (span : Span) :
    (Pack.initial e base span).dependents e = [] := by
  simp [Pack.initial, Pack.dependents]

theorem Pack.lineUp_initial (e : ℤ) (base : EntityBase) (span : Span) : (Pack.initial e base span).LineUp e := by
  refine ⟨⟨?_, ?_⟩, ?_, ?_⟩
  · simp [Pack.initial]
  · simp [Pack.initial]
  · simp [Pack.initial, Pack.lineUp]
  · simp [Pack.initial]

/-- The pack is filled. -/
theorem filling_packInit {new : ℤ → Run ℤ} {n : ℕ} (hnew : ∀ baseid w, wp (new baseid)
      (fun t w' => t = w.nextEntity ∧ Grown w w' ∧ w'.Sound n t ∧ (w'.kin n t).Nodup) (fun _ w' => Grown w w') w)
    {e : ℤ} {w : World} (he : e < w.nextEntity) (baseid : ℤ) (base : EntityBase) (span : Span) :
    wp (packInit env new e baseid base span) (Filling env n e span w) (fun _ w' => Grown w w') w := by
  have hinitial : Filling env n e span w (Pack.initial e base span) w := by
    refine ⟨.refl w, rfl, ⟨nofun, nofun, nofun⟩, nofun, ?_, ?_, Pack.lineUp_initial e base span⟩
    · rw [Pack.dependents_initial]
      exact nofun
    · rw [Pack.dependents_initial]
      exact List.nodup_nil
  rw [packInit, wp_bind]
  refine wp_mono (wp_foldlM (fun b _ p w' h => filling_initCard h b) hinitial) (fun p w' h => ?_) fun _ _ h => h
  rw [wp_bind]
  refine wp_mono (wp_foldlM (fun x _ p w' h => filling_initItem base x h) h) (fun p w' h => ?_) fun _ _ h => h
  rw [wp_bind]
  refine wp_mono (wp_foldlM (fun x _ p w' h => filling_initPuppet hnew baseid x he h) h) (fun p w' h => ?_)
    fun _ _ h => h
  exact wp_foldlM (fun x _ p w' h => filling_initBuff x h) h

/-- The track of programs that only tell the client something. -/
def toldTrack : Track Fault World where
  ok w w' := ∃ calls, w' = { w with sent := calls }
  error _ _ _ := False
  refl w := ⟨w.sent, rfl⟩
  trans := by
    rintro s t u ⟨l, rfl⟩ ⟨l', rfl⟩
    exact ⟨l', rfl⟩
  trans_error _ h := h

theorem told_notify (c : ClientCall) : toldTrack.Follows (notify c) := Track.follows_modify fun _ => ⟨_, rfl⟩

theorem told_notifyClient (e : ℤ) : toldTrack.Follows (notifyClient env e) := by
  refine (Track.follows_get.bind fun _ => Track.follows_pure _).bind fun p => ?_
  refine (told_notify _).bind fun _ => (told_notify _).bind fun _ => (told_notify _).bind fun _ => ?_
  refine (told_notify _).bind fun _ => (told_notify _).bind fun _ => ?_
  refine (Track.Follows.forM fun _ _ => told_notify _).bind fun _ => ?_
  refine (Track.Follows.forM fun _ _ => told_notify _).bind fun _ => ?_
  refine (Track.Follows.forM fun _ _ => told_notify _).bind fun _ => ?_
  refine (Track.Follows.forM fun _ _ => told_notify _).bind fun _ => ?_
  exact Track.Follows.forM fun _ _ => told_notify _

/-- The entity gets its pack. -/
theorem Filling.made {n : ℕ} {e baseid : ℤ} {side : Side} {span : Span} {w₀ w : World} {p : Pack}
    (h : Filling env n e span w₀ p w) (he : e < w₀.nextEntity) (hbaseid : (w₀.entityAt e).baseid = baseid)
    (hside : (w₀.entityAt e).side = side)
    (hdeath : (w₀.entityAt e).death = false) (hbackup : (w₀.entityAt e).backup = none)
    (hfreed : (w₀.entityAt e).freed = false) : Made env baseid side span (n + 1) e (w.setPack e p) := by
  have hsame : w.entityAt e = w₀.entityAt e := h.grown.entityAt e he
  have hpack : (w.setPack e p).pack e = p := w.pack_setPack_self e p
  have hkin {t : ℤ} (ht : t ∈ p.dependents e) :
      (w.setPack e p).Sound n t ∧ (w.setPack e p).kin n t = w.kin n t := by
    obtain ⟨hlt, hsound⟩ := h.sound t ht
    have hne {s : ℤ} (hs : s ∈ w.kin n t) : s ≠ e := by
      have := (hsound.of_mem_kin hs).1
      omega
    refine hsound.congr (le_refl _) (fun s hs => ?_) fun s hs => ?_
    · rw [World.entityAt_setPack]
    · rw [World.pack_setPack_of_ne _ (hne hs)]
  refine ⟨?_, ?_, ?_, ?_, ?_, ?_, ⟨?_, ?_, ?_⟩, ?_, by rw [hpack]; exact h.lineUp⟩
  · rw [World.entityAt_setPack, ← hbaseid, ← hsame]
  · rw [World.side_setPack, hsame, hside]
  · rw [World.death_setPack, hsame, hdeath]
  · rw [World.backup_setPack, hsame, hbackup]
  · rw [hpack, h.span]
  · rw [hpack]
    exact ⟨h.stocked.cards, h.stocked.items, h.stocked.equips⟩
  · rw [World.entityAt_setPack, ← hfreed, ← hsame]
  · exact he.trans_le h.grown.nextEntity
  · rw [hpack]
    exact fun t ht => ⟨(h.sound t ht).1, (hkin ht).1⟩
  · rw [World.kin, hpack, List.flatMap_congr fun t ht => (hkin ht).2]
    refine List.nodup_cons.2 ⟨fun hmem => ?_, h.nodup⟩
    obtain ⟨t, ht, hmem⟩ := List.mem_flatMap.1 hmem
    obtain ⟨hlt, hsound⟩ := h.sound t ht
    exact absurd (hsound.of_mem_kin hmem).1 (not_le.2 hlt)

theorem Made.told {n : ℕ} {e baseid : ℤ} {side : Side} {span : Span} {w : World}
    (h : Made env baseid side span n e w) (calls : List ClientCall) : Made env baseid side span n e { w with sent := calls } := by
  obtain ⟨hsound, hkin⟩ := @World.Sound.congr w { w with sent := calls } _ _ h.sound (le_refl _) (fun _ _ => rfl) fun _ _ => rfl
  exact ⟨h.baseid, h.side, h.death, h.backup, h.span, ⟨h.stocked.cards, h.stocked.items, h.stocked.equips⟩, hsound,
    hkin ▸ h.nodup, h.lineUp⟩

/-- **An entity that is made is one of its own, and all else is as it was.** -/
theorem wp_entityNew (side : Side) (span : Span) (fuel : ℕ) (master : Option ℤ) (baseid : ℤ) (w : World) :
    wp (entityNew env side span fuel master baseid)
      (fun e w' => e = w.nextEntity ∧ Grown w w' ∧ Made env baseid side span fuel e w') (fun _ w' => Grown w w') w := by
  induction fuel generalizing master baseid w with
  | zero => exact .refl w
  | succ fuel ih =>
    rw [entityNew, wp_bind, wp_get, wp_bind, wp_modify]
    have htake : Grown w { w with nextEntity := w.nextEntity + 1 } := { Grown.refl w with nextEntity := by simp }
    split
    · exact htake
    · rename_i base hbase
      rw [wp_bind, wp_modify, wp_bind]
      generalize hx : Entity.mk baseid base master side false false (env.birth w.nextEntity) {} none = x
      have hgrown : Grown w (World.setEntity { w with nextEntity := w.nextEntity + 1 } w.nextEntity x) :=
        { htake with entityAt := fun e he => World.entityAt_setEntity_of_ne _ (ne_of_lt he) x }
      have hself : (World.setEntity { w with nextEntity := w.nextEntity + 1 } w.nextEntity x).entityAt w.nextEntity = x :=
        World.entityAt_setEntity_self ..
      have hlt : w.nextEntity < (World.setEntity { w with nextEntity := w.nextEntity + 1 } w.nextEntity x).nextEntity :=
        Int.lt_succ _
      have hnew : ∀ baseid u, wp (entityNew env side span fuel (some w.nextEntity) baseid)
          (fun t w' => t = u.nextEntity ∧ Grown u w' ∧ w'.Sound fuel t ∧ (w'.kin fuel t).Nodup)
          (fun _ w' => Grown u w') u := by
        intro baseid u
        refine wp_mono (ih _ baseid u) ?_ fun _ _ h => h
        rintro t w' ⟨ht, hgrown, hmade⟩
        exact ⟨ht, hgrown, hmade.sound, hmade.nodup⟩
      refine wp_mono (filling_packInit hnew hlt baseid base span) ?_ fun _ _ h => hgrown.trans h
      intro p u hfilling
      have hmade : Made env baseid side span (fuel + 1) w.nextEntity (u.setPack w.nextEntity p) := by
        refine hfilling.made hlt ?_ ?_ ?_ ?_ ?_ <;> rw [hself, ← hx]
      have hset : Grown w (u.setPack w.nextEntity p) :=
        { hgrown.trans hfilling.grown with
          entityAt := fun e he => by
            rw [World.setPack, World.entityAt_setEntity_of_ne _ (ne_of_lt he)]
            exact (hgrown.trans hfilling.grown).entityAt e he }
      rw [wp_bind, wp_modifyPack, wp_bind]
      refine wp_mono (told_notifyClient w.nextEntity _) ?_ fun _ _ h => h.elim
      rintro _ w' ⟨calls, rfl⟩
      exact ⟨rfl, { hset with }, hmade.told calls⟩

end Slam.Game
