import Slam.Game.Event
import Slam.Game.Stacking
import Slam.Game.Shop
import Slam.Lib.Machine

/-!
# Rewards of an event

Each element of the list of rewards is to be granted at most once, with at most what one of its entries says.
`World.amount` measures what an entity has, and a run of requests is accounted for by the claims that have been
granted: together with the rewards that are left they are the rewards that there were, and nobody has more than before
plus what its claims say.

Cards, gold and puppets are granted that way whatever happens, also if something raises. Items are not: a table of
items is granted one base id after the other, and if the pack is full before the last one, or a row is missing, then
the request returns false and the same reward can be claimed again. And an item that is there already is counted twice
by `add_item`. `rewards_granted_once` is about runs in which neither happens: `RewardCall.Fits` says when.
-/

namespace Slam.Game

open Raising

variable {env : Env}

/-! ### What an entity has -/

/-- A kind of thing to have. -/
inductive Asset
  | card (baseid : ℤ)
  | item (baseid : ℤ)
  | gold
  | puppet (baseid : ℤ)
  deriving DecidableEq

/-- How much there is of a kind in a pack. -/
def World.amountIn (w : World) (p : Pack) : Asset → ℤ
  | .card baseid => (p.cards.filter fun c => (w.cardAt c).baseid = baseid).length
  | .item baseid => (p.items.map fun i => if (w.itemAt i).baseid = baseid then (w.itemAt i).number else 0).sum
  | .gold => p.gold
  | .puppet baseid => (p.puppets.filter fun t => (w.entityAt t).baseid = baseid).length

/-- How much an entity has of a kind. -/
def World.amount (w : World) (e : ℤ) (a : Asset) : ℤ := w.amountIn (w.pack e) a

/-- An entry of a reward. -/
inductive Grant
  | card (baseid : ℤ)
  | items (numbers : List (ℤ × ℤ))
  | gold (value : ℤ)
  | puppet (baseid : ℤ)

/-- How much of a kind an entry is at most. -/
def Grant.amount : Grant → Asset → ℤ
  | .card baseid, .card baseid' => if baseid' = baseid then 1 else 0
  | .items numbers, .item baseid => max 0 ((numbers.lookup baseid).getD 0)
  | .gold value, .gold => max 0 value
  | .puppet baseid, .puppet baseid' => if baseid' = baseid then 1 else 0
  | _, _ => 0

/-- The reward has the entry. -/
def Reward.Offers (r : Reward) : Grant → Prop
  | .card baseid => ∃ cards, r.cards = some cards ∧ baseid ∈ cards
  | .items numbers => ∃ items, r.items = some items ∧ .table numbers ∈ items
  | .gold value => r.gold = some value
  | .puppet baseid => ∃ puppets, r.puppets = some puppets ∧ baseid ∈ puppets

/-- The rewards of the event that has been triggered. -/
def World.rewards (w : World) : List Reward :=
  (((w.scene.bind Scene.triggerEvent).bind Event.content).bind Content.reward).getD []

/-- The identifiers of what the entities below `n` have are taken from the counters, and no two of them have the same
item. Members of the scene are below `n`. -/
structure World.Numbered (w : World) (n : ℤ) : Prop where
  entity : n ≤ w.nextEntity
  member : ∀ s, w.scene = some s → ∀ e ∈ s.members, e < n
  card : ∀ e < n, ∀ c ∈ (w.pack e).cards, c < w.nextCard
  tallied : ∀ e < n, w.Tallied e
  apart : ∀ e < n, ∀ e' < n, ∀ i ∈ (w.pack e).items, i ∈ (w.pack e').items → e = e'
  puppet : ∀ e < n, ∀ t ∈ (w.pack e).puppets, t < w.nextEntity

/-- The entity `e` has got at most `g`, and nobody else below `n` anything. -/
def Gains (n e : ℤ) (g : Asset → ℤ) (w w' : World) : Prop :=
  ∀ i < n, ∀ a, w'.amount i a ≤ w.amount i a + if i = e then g a else 0

/-- A part of a request that grants at most `g`. -/
structure Gained (n e : ℤ) (g : Asset → ℤ) (w w' : World) : Prop where
  numbered : w'.Numbered n
  scene : w'.scene = w.scene
  gains : Gains n e g w w'

section Steps

variable {n e : ℤ} {w w' : World}

/-- What is there stays as it is when the world grows. -/
theorem World.amount_grown (h : w.Numbered n) (hgrown : Grown w w') (he : e < n) (a : Asset) :
    w'.amount e a = w.amount e a := by
  rw [World.amount, World.amount, hgrown.pack (he.trans_le h.entity)]
  cases a with
  | card baseid =>
    rw [World.amountIn, World.amountIn]
    congr 2
    exact List.filter_congr fun c hc => by rw [hgrown.cardAt c (h.card e he c hc)]
  | item baseid =>
    rw [World.amountIn, World.amountIn]
    exact congrArg List.sum (List.map_congr_left fun i hi => by rw [hgrown.itemAt i ((h.tallied e he).made i hi)])
  | gold => rfl
  | puppet baseid =>
    rw [World.amountIn, World.amountIn]
    congr 2
    exact List.filter_congr fun t ht => by rw [hgrown.entityAt t (h.puppet e he t ht)]

theorem World.Tallied.grown (h : w.Tallied e) (he : e < w.nextEntity) (hgrown : Grown w w') : w'.Tallied e := by
  have hpack : w'.pack e = w.pack e := hgrown.pack he
  refine ⟨?_, fun i hi => ?_, fun i hi => ?_⟩
  · rw [hpack]
    exact h.nodup
  · rw [hpack] at hi
    exact (h.made i hi).trans_le hgrown.nextItem
  · rw [hpack] at hi
    rw [hgrown.itemAt i (h.made i hi)]
    exact h.clamped i hi

theorem World.Numbered.grown (h : w.Numbered n) (hgrown : Grown w w') : w'.Numbered n := by
  have hpack {e : ℤ} (he : e < n) : w'.pack e = w.pack e := hgrown.pack (he.trans_le h.entity)
  refine ⟨h.entity.trans hgrown.nextEntity, ?_, fun e he => ?_, fun e he => ?_, fun e he e' he' => ?_, fun e he => ?_⟩
  · rw [hgrown.scene]
    exact h.member
  · rw [hpack he]
    exact fun c hc => (h.card e he c hc).trans_le hgrown.nextCard
  · exact (h.tallied e he).grown (he.trans_le h.entity) hgrown
  · rw [hpack he, hpack he']
    exact h.apart e he e' he'
  · rw [hpack he]
    exact fun t ht => (h.puppet e he t ht).trans_le hgrown.nextEntity

namespace Gained

variable {g g' : Asset → ℤ}

theorem trans {w'' : World} (h : Gained n e g w w') (h' : Gained n e g' w' w'') :
    Gained n e (fun a => g a + g' a) w w'' := by
  refine ⟨h'.numbered, h'.scene.trans h.scene, fun i hi a => ?_⟩
  have h₁ := h.gains i hi a
  have h₂ := h'.gains i hi a
  split_ifs at h₁ h₂ ⊢ <;> omega

theorem mono (h : Gained n e g w w') (hle : ∀ a, g a ≤ g' a) : Gained n e g' w w' := by
  refine ⟨h.numbered, h.scene, fun i hi a => (h.gains i hi a).trans ?_⟩
  have := hle a
  split_ifs <;> omega

theorem of_grown (h : w.Numbered n) (hgrown : Grown w w') : Gained n e (fun _ => 0) w w' := by
  refine ⟨h.grown hgrown, hgrown.scene, fun i hi a => ?_⟩
  rw [World.amount_grown h hgrown hi, ite_self, add_zero]

theorem of_zero {w'' : World} (h : Gained n e (fun _ => 0) w w') (h' : Gained n e g w' w'') : Gained n e g w w'' :=
  (h.trans h').mono fun a => by rw [zero_add]

/-- The client may be told anything. -/
theorem tell (h : Gained n e g w w') (calls : List ClientCall) : Gained n e g w (w'.tell calls) := by
  refine ⟨?_, h.scene, fun i hi a => le_of_eq_of_le ?_ (h.gains i hi a)⟩
  · obtain ⟨h₁, h₂, h₃, h₄, h₅, h₆⟩ := h.numbered
    exact ⟨h₁, h₂, h₃, fun e he => ⟨(h₄ e he).nodup, (h₄ e he).made, (h₄ e he).clamped⟩, h₅, h₆⟩
  · cases a <;> rfl

end Gained

/-- A pack may be written that has the same items. -/
theorem World.Numbered.setPack (h : w.Numbered n) {p : Pack} (hitems : p.items = (w.pack e).items)
    (hcard : ∀ c ∈ p.cards, c < w.nextCard) (hpuppet : ∀ t ∈ p.puppets, t < w.nextEntity) :
    (w.setPack e p).Numbered n := by
  have hall (i : ℤ) : ((w.setPack e p).pack i).items = (w.pack i).items := by
    rw [World.pack_setPack]
    split
    · rename_i hie
      rw [hie, hitems]
    · rfl
  refine ⟨h.entity, h.member, fun i hi => ?_, fun i hi => ?_, fun i hi j hj => ?_, fun i hi => ?_⟩
  · rw [World.pack_setPack]
    split
    · exact hcard
    · exact h.card i hi
  · refine ⟨?_, fun k hk => ?_, fun k hk => ?_⟩
    · rw [hall i]
      exact (h.tallied i hi).nodup
    · rw [hall i] at hk
      exact (h.tallied i hi).made k hk
    · rw [hall i] at hk
      exact (h.tallied i hi).clamped k hk
  · rw [hall i, hall j]
    exact h.apart i hi j hj
  · rw [World.pack_setPack]
    split
    · exact hpuppet
    · exact h.puppet i hi

/-- Writing the pack of an entity does not change what things are. -/
theorem World.amountIn_setPack (w : World) (e : ℤ) (p q : Pack) (a : Asset) :
    (w.setPack e p).amountIn q a = w.amountIn q a := by
  cases a with
  | puppet baseid =>
    rw [World.amountIn, World.amountIn]
    congr 2
    exact List.filter_congr fun t _ => by rw [World.entityAt_setPack]
  | _ => rfl

/-- An entity gets a pack with the same items, and the client is told. -/
theorem Gained.setPack (h : w.Numbered n) {p : Pack} {g : Asset → ℤ} (hitems : p.items = (w.pack e).items)
    (hcard : ∀ c ∈ p.cards, c < w.nextCard) (hpuppet : ∀ t ∈ p.puppets, t < w.nextEntity)
    (hamount : ∀ a, w.amountIn p a ≤ w.amountIn (w.pack e) a + g a) (calls : List ClientCall) :
    Gained n e g w ((w.setPack e p).tell calls) := by
  refine Gained.tell (w := w) ⟨h.setPack hitems hcard hpuppet, rfl, fun i hi a => ?_⟩ calls
  rw [World.amount, World.amountIn_setPack, World.pack_setPack]
  by_cases hie : i = e
  · rw [hie, if_pos rfl, if_pos rfl]
    exact hamount a
  · rw [if_neg hie, if_neg hie, add_zero, World.amount]

/-- A card that has just been made is added. -/
theorem wp_grantCard (h : w.Numbered n) (he : e < n) (baseid : ℤ) : wp (addCard env e baseid)
    (fun _ w' => Gained n e (Grant.card baseid).amount w w') (fun _ w' => Grown w w') w := by
  rw [addCard, wp_bind]
  refine wp_mono (grown_cardNew baseid w) ?_ fun _ _ h => h
  rintro c w₁ ⟨hgrown, hc, hlt, hbaseid, -⟩
  have h₁ := h.grown hgrown
  rw [wp_bind, wp_getPack, wp_bind, wp_assertion]
  refine ⟨fun _ => ?_, fun _ => hgrown⟩
  rw [wp_bind, wp_modifyPack, wp_bind, wp_notify_tell, wp_pure]
  refine (Gained.of_grown h hgrown).of_zero (.setPack h₁ ?_ ?_ ?_ (fun a => ?_) _)
  · rfl
  · intro c' hc'
    rcases List.mem_append.1 hc' with hc' | hc'
    · exact h₁.card e he c' hc'
    · rw [List.mem_singleton.1 hc']
      exact hlt
  · exact h₁.puppet e he
  · cases a with
    | card b =>
      simp only [World.amountIn, Grant.amount, List.filter_append, List.length_append]
      by_cases hb : b = baseid
      · simp [hbaseid, hb]
      · simp [hbaseid, Ne.symm hb, hb]
    | _ => simp [World.amountIn, Grant.amount]

/-- Gold is added. -/
theorem wp_grantGold (h : w.Numbered n) (he : e < n) (value : ℤ) : wp (addGold e value)
    (fun _ w' => Gained n e (Grant.gold value).amount w w') (fun _ w' => w' = w) w := by
  rw [addGold, wp_bind, wp_getPack, wp_bind, wp_assertion]
  refine ⟨fun _ => ?_, fun _ => rfl⟩
  rw [wp_bind, wp_modifyPack, wp_bind, wp_getPack, wp_notify_tell]
  refine .setPack h ?_ ?_ ?_ (fun a => ?_) _
  · rfl
  · exact h.card e he
  · exact h.puppet e he
  · cases a with
    | gold =>
      show max 0 ((w.pack e).gold + value) ≤ (w.pack e).gold + max 0 value
      omega
    | _ => simp [World.amountIn, Grant.amount]

/-- A puppet that has just been made is added. -/
theorem wp_grantPuppet (h : w.Numbered n) (he : e < n) (fuel : ℕ) (baseid : ℤ) : wp (addPuppet env fuel e baseid)
    (fun _ w' => Gained n e (Grant.puppet baseid).amount w w') (fun _ w' => Grown w w') w := by
  rw [addPuppet, wp_bind, wp_get, wp_bind]
  refine wp_mono (wp_entityNew (w.entityAt e).side (w.pack e).span fuel (some e) baseid w) ?_ fun _ _ h => h
  rintro t w₁ ⟨ht, hgrown, hmade⟩
  have h₁ := h.grown hgrown
  rw [wp_bind, wp_getPack, wp_bind, wp_assertion]
  refine ⟨fun _ => ?_, fun _ => hgrown⟩
  rw [wp_bind, wp_modifyPack, wp_bind, wp_notify_tell, wp_pure]
  refine (Gained.of_grown h hgrown).of_zero (.setPack h₁ ?_ ?_ ?_ (fun a => ?_) _)
  · rfl
  · exact h₁.card e he
  · intro s hs
    rcases List.mem_append.1 hs with hs | hs
    · exact h₁.puppet e he s hs
    · rw [List.mem_singleton.1 hs]
      exact hmade.sound.lt
  · cases a with
    | puppet b =>
      simp only [World.amountIn, Grant.amount, List.filter_append, List.length_append]
      by_cases hb : b = baseid
      · simp [hmade.baseid, hb]
      · simp [hmade.baseid, Ne.symm hb, hb]
    | _ => simp [World.amountIn, Grant.amount]

/-! ### Items -/

/-- Stacks of base id `b` have been changed or added in the pack of `e`, and nothing else. -/
structure Put (e b : ℤ) (w w' : World) : Prop where
  frame : ({ w' with entityAt := w.entityAt, itemAt := w.itemAt, nextItem := w.nextItem, sent := w.sent } : World) = w
  entityAt : ∀ d, w'.entityAt d = { w.entityAt d with pack := { w.pack d with items := (w'.pack d).items } }
  items : ∃ new, (w'.pack e).items = (w.pack e).items ++ new ∧
    ∀ i ∈ new, w.nextItem ≤ i ∧ i < w'.nextItem ∧ (w'.itemAt i).baseid = b
  others : ∀ d ≠ e, (w'.pack d).items = (w.pack d).items
  nextItem : w.nextItem ≤ w'.nextItem
  baseid : ∀ i < w.nextItem, (w'.itemAt i).baseid = (w.itemAt i).baseid
  itemAt : ∀ i < w.nextItem, (i ∉ (w.pack e).items ∨ (w.itemAt i).baseid ≠ b) → w'.itemAt i = w.itemAt i

namespace Put

variable {b : ℤ}

theorem refl (e b : ℤ) (w : World) : Put e b w w where
  frame := rfl
  entityAt _ := rfl
  items := ⟨[], by simp, by simp⟩
  others _ _ := rfl
  nextItem := le_rfl
  baseid _ _ := rfl
  itemAt _ _ _ := rfl

theorem pack (h : Put e b w w') (d : ℤ) : w'.pack d = { w.pack d with items := (w'.pack d).items } :=
  (congrArg Entity.pack (h.entityAt d) :)

theorem trans {w'' : World} (h : Put e b w w') (h' : Put e b w' w'') : Put e b w w'' where
  frame := by
    have h₁ := h.frame
    rw [← h'.frame] at h₁
    exact h₁
  entityAt d := by
    rw [h'.entityAt d, h.entityAt d, h.pack d]
  items := by
    obtain ⟨new, hnew, hall⟩ := h.items
    obtain ⟨new', hnew', hall'⟩ := h'.items
    refine ⟨new ++ new', by rw [hnew', hnew, List.append_assoc], fun i hi => ?_⟩
    rcases List.mem_append.1 hi with hi | hi
    · obtain ⟨hle, hlt, hbaseid⟩ := hall i hi
      exact ⟨hle, hlt.trans_le h'.nextItem, (h'.baseid i hlt).trans hbaseid⟩
    · obtain ⟨hle, hlt, hbaseid⟩ := hall' i hi
      exact ⟨h.nextItem.trans hle, hlt, hbaseid⟩
  others d hd := (h'.others d hd).trans (h.others d hd)
  nextItem := h.nextItem.trans h'.nextItem
  baseid i hi := (h'.baseid i (hi.trans_le h.nextItem)).trans (h.baseid i hi)
  itemAt i hi hother := by
    rw [h'.itemAt i (hi.trans_le h.nextItem) ?_, h.itemAt i hi hother]
    rcases hother with hnot | hne
    · -- What has come since then is newer.
      obtain ⟨new, hnew, hall⟩ := h.items
      refine .inl fun hmem => ?_
      rw [hnew] at hmem
      rcases List.mem_append.1 hmem with hmem | hmem
      · exact hnot hmem
      · exact absurd (hall i hmem).1 (not_le.2 hi)
    · exact .inr (by rwa [h.baseid i hi])

/-- A new stack comes to the pack. -/
theorem newItem (w : World) (e : ℤ) (x : Item) (calls : List ClientCall) : Put e x.baseid w
    (((w.newItem x).setPack e ((w.pack e).withItem w.nextItem)).tell calls) := by
  have hpack (d : ℤ) : ((((w.newItem x).setPack e ((w.pack e).withItem w.nextItem)).tell calls).pack d) =
      if d = e then (w.pack e).withItem w.nextItem else w.pack d := World.pack_setPack ..
  have hgrown := Grown.newItem w x
  refine ⟨rfl, fun d => ?_, ⟨[w.nextItem], ?_, fun i hi => ?_⟩, fun d hd => ?_, ?_, fun i hi => ?_, fun i hi _ => ?_⟩
  · rw [hpack]
    show ((w.newItem x).setPack e ((w.pack e).withItem w.nextItem)).entityAt d = _
    rw [World.entityAt_setPack]
    split
    · rename_i hd
      rw [hd]
      rfl
    · rfl
  · rw [hpack, if_pos rfl]
    rfl
  · rw [List.mem_singleton.1 hi]
    exact ⟨le_rfl, lt_add_one _, congrArg Item.baseid (w.itemAt_newItem x)⟩
  · rw [hpack, if_neg hd]
  · exact hgrown.nextItem
  · exact congrArg Item.baseid (hgrown.itemAt i hi)
  · exact hgrown.itemAt i hi

/-- The number of a stack in the pack is set. -/
theorem setNumber {i : ℤ} (hi : i ∈ (w.pack e).items) (hbaseid : (w.itemAt i).baseid = b) (number : ℤ)
    (calls : List ClientCall) : Put e b w ((w.setNumber i number).tell calls) where
  frame := rfl
  entityAt _ := rfl
  items := ⟨[], (List.append_nil _).symm, nofun⟩
  others _ _ := rfl
  nextItem := le_rfl
  baseid j _ := by
    show ((w.setNumber i number).itemAt j).baseid = _
    by_cases hji : j = i
    · rw [hji, World.itemAt_setNumber_self]
    · rw [World.itemAt_setNumber_of_ne w hji]
  itemAt j _ hother := by
    refine w.itemAt_setNumber_of_ne ?_ number
    rintro rfl
    exact hother.elim (fun hnot => hnot hi) fun hne => hne hbaseid

end Put

/-- The loop of `add_item` only puts new stacks into the pack. -/
theorem put_addItemLoop {b : ℤ} {row : ItemBase} (hrow : env.itemTable b = some row) (hscript : row.scriptFunc.isSome)
    (slots : ℕ) (number : ℤ) (w : World) :
    wp (addItemLoop env e b slots number) (fun _ w' => Put e b w w') (fun _ _ => True) w := by
  induction slots generalizing number w with
  | zero => exact .refl e b w
  | succ slots ih =>
    rw [addItemLoop, wp_ite]
    refine ⟨fun _ => ?_, fun _ => .refl e b w⟩
    rw [wp_bind, wp_ok (itemNew_apply hrow hscript number w), wp_bind, wp_getPack, wp_bind, wp_assertion]
    refine ⟨fun _ => ?_, fun _ => trivial⟩
    rw [wp_bind, wp_modifyPack, wp_bind, wp_notify_tell, wp_bind, wp_get, wp_ite]
    have hput := Put.newItem w e (row.item b number) [.bagAddItem e w.nextItem]
    exact ⟨fun _ => wp_mono (ih _ _) (fun _ _ h => hput.trans h) fun _ _ h => h, fun _ => hput⟩

/-- `add_item` only puts stacks of its base id into the pack. -/
theorem put_addItem {b : ℤ} {row : ItemBase} (hrow : env.itemTable b = some row) (hscript : row.scriptFunc.isSome)
    (number : ℤ) (w : World) :
    wp (addItem env e b number) (fun _ w' => Put e b w w') (fun _ _ => True) w := by
  cases hfind : w.findItemByBaseid env e b with
  | none =>
    rw [wp_congr (addItem_of_none hfind number)]
    exact put_addItemLoop hrow hscript _ _ w
  | some i =>
    rw [wp_congr (addItem_of_some hfind number)]
    obtain ⟨hi, hbaseid⟩ := mem_of_findItemByBaseid hfind
    exact wp_mono (put_addItemLoop hrow hscript _ _ _) (fun _ _ h => (Put.setNumber hi hbaseid _ _).trans h) fun _ _ h => h

/-- What `b` in the number `number` adds. -/
def itemGain (b number : ℤ) (a : Asset) : ℤ := if a = .item b then max 0 number else 0

theorem Put.numbered {b : ℤ} (h : Put e b w w') (hw : w.Numbered n) (he : e < n) (htallied : w'.Tallied e) :
    w'.Numbered n := by
  have hframe := h.frame
  have hcards (d : ℤ) : (w'.pack d).cards = (w.pack d).cards := (congrArg Pack.cards (h.pack d) :)
  have hpuppets (d : ℤ) : (w'.pack d).puppets = (w.pack d).puppets := (congrArg Pack.puppets (h.pack d) :)
  have hnextEntity : w'.nextEntity = w.nextEntity := (congrArg World.nextEntity hframe :)
  have hnextCard : w'.nextCard = w.nextCard := (congrArg World.nextCard hframe :)
  have hscene : w'.scene = w.scene := (congrArg World.scene hframe :)
  obtain ⟨new, hnew, hall⟩ := h.items
  -- The items of `e` are its old ones and those that have just been made.
  have hforeign : ∀ d < n, d ≠ e → ∀ i ∈ (w'.pack e).items, i ∉ (w'.pack d).items := by
    intro d hd hde i hi hmem
    rw [hnew] at hi
    rw [h.others d hde] at hmem
    rcases List.mem_append.1 hi with hi | hi
    · exact hde (hw.apart e he d hd i hi hmem).symm
    · exact absurd ((hw.tallied d hd).made i hmem) (not_lt.2 (hall i hi).1)
  refine ⟨by rw [hnextEntity]; exact hw.entity, by rw [hscene]; exact hw.member, fun d hd => ?_, fun d hd => ?_,
    fun d hd d' hd' i hi hi' => ?_, fun d hd => ?_⟩
  · rw [hcards, hnextCard]
    exact hw.card d hd
  · by_cases hde : d = e
    · rw [hde]
      exact htallied
    · have hd' := hw.tallied d hd
      refine ⟨?_, fun i hi => ?_, fun i hi => ?_⟩
      · rw [h.others d hde]
        exact hd'.nodup
      · rw [h.others d hde] at hi
        exact (hd'.made i hi).trans_le h.nextItem
      · rw [h.others d hde] at hi
        rw [h.itemAt i (hd'.made i hi) (.inl fun hmem => hde (hw.apart d hd e he i hi hmem))]
        exact hd'.clamped i hi
  · by_cases hde : d = e
    · by_cases hde' : d' = e
      · rw [hde, hde']
      · rw [hde] at hi
        exact absurd hi' (hforeign d' hd' hde' i hi)
    · by_cases hde' : d' = e
      · rw [hde'] at hi'
        exact absurd hi (hforeign d hd hde i hi')
      · rw [h.others d hde] at hi
        rw [h.others d' hde'] at hi'
        exact hw.apart d hd d' hd' i hi hi'
  · rw [hpuppets, hnextEntity]
    exact hw.puppet d hd

/-- Stacks of `b` change the number of `b` only. -/
theorem Put.gained {b number : ℤ} (h : Put e b w w') (hw : w.Numbered n) (he : e < n) (htallied : w'.Tallied e)
    (htotal : w'.total e b ≤ w.total e b + max 0 number) : Gained n e (itemGain b number) w w' := by
  have hframe := h.frame
  have hcardAt : w'.cardAt = w.cardAt := (congrArg World.cardAt hframe :)
  have hcards (d : ℤ) : (w'.pack d).cards = (w.pack d).cards := (congrArg Pack.cards (h.pack d) :)
  have hpuppets (d : ℤ) : (w'.pack d).puppets = (w.pack d).puppets := (congrArg Pack.puppets (h.pack d) :)
  have hbaseid (d : ℤ) : (w'.entityAt d).baseid = (w.entityAt d).baseid := by rw [h.entityAt d]
  obtain ⟨new, hnew, hall⟩ := h.items
  refine ⟨h.numbered hw he htallied, (congrArg World.scene hframe :), fun d hd a => ?_⟩
  cases a with
  | card c =>
    refine le_of_eq ?_
    simp only [World.amount, World.amountIn, hcards, hcardAt, itemGain, reduceCtorEq, if_false, ite_self, add_zero]
  | gold =>
    refine le_of_eq ?_
    have hgold : (w'.pack d).gold = (w.pack d).gold := (congrArg Pack.gold (h.pack d) :)
    simp only [World.amount, World.amountIn, hgold, itemGain, reduceCtorEq, if_false, ite_self, add_zero]
  | puppet c =>
    refine le_of_eq ?_
    simp only [World.amount, World.amountIn, hpuppets, hbaseid, itemGain, reduceCtorEq, if_false, ite_self, add_zero]
  | item b' =>
    show w'.total d b' ≤ w.total d b' + _
    by_cases hde : d = e
    · subst hde
      by_cases hb : b' = b
      · rw [hb, if_pos rfl, itemGain, if_pos rfl]
        exact htotal
      · -- The new stacks are not of this base id, and the old ones of it are as they were.
        rw [if_pos rfl, itemGain, if_neg (by simpa using hb), add_zero, World.total, World.total, hnew, List.map_append,
          List.sum_append]
        have hzero : (new.map fun i => if (w'.itemAt i).baseid = b' then (w'.itemAt i).number else 0).sum = 0 := by
          refine List.sum_eq_zero fun x hx => ?_
          obtain ⟨i, hi, rfl⟩ := List.mem_map.1 hx
          rw [(hall i hi).2.2, if_neg (Ne.symm hb)]
        have hsame : ((w.pack d).items.map fun i => if (w'.itemAt i).baseid = b' then (w'.itemAt i).number else 0) =
            (w.pack d).items.map fun i => if (w.itemAt i).baseid = b' then (w.itemAt i).number else 0 := by
          refine List.map_congr_left fun i hi => ?_
          have hmade := (hw.tallied d hd).made i hi
          rw [h.baseid i hmade]
          split
          · rename_i hib
            rw [h.itemAt i hmade (.inr (by rwa [hib]))]
          · rfl
        rw [hzero, hsame, add_zero]
    · rw [if_neg hde, add_zero, World.total, World.total, h.others d hde]
      refine le_of_eq (congrArg List.sum (List.map_congr_left fun i hi => ?_))
      rw [h.itemAt i ((hw.tallied d hd).made i hi) (.inl fun hmem => hde (hw.apart d hd e he i hi hmem))]

theorem ItemBase.clampNumber_le_of_nonpos (base : ItemBase) {number : ℤ} (h : number ≤ 0) (other : ℤ) :
    base.clampNumber number ≤ base.clampNumber other := by
  unfold ItemBase.clampNumber
  dsimp only
  split_ifs <;> omega

/-- `add_item` of so many adds at most as many: there is no stack of it, or the stack that is found is empty, gets filled
up or emptied. -/
def World.AddsAtMost (w : World) (env : Env) (e b number : ℤ) : Prop :=
  ∀ i, w.findItemByBaseid env e b = some i → (w.itemAt i).number = 0 ∨
    (w.itemAt i).base.limit ≤ max 0 number + (w.itemAt i).number ∨ number + (w.itemAt i).number ≤ 0

/-- An item is added. -/
theorem addItem_gained {b number : ℤ} (hitem : env.HasItem b) (hmost : w.AddsAtMost env e b number)
    (hw : w.Numbered n) (he : e < n) :
    ∃ w', addItem env e b number w = .ok () w' ∧ Gained n e (itemGain b number) w w' := by
  obtain ⟨row, hrow, hscript⟩ := hitem
  have htallied := hw.tallied e he
  obtain ⟨w', raised, left, hrun, htotal, hnone, hsome, htallied', -⟩ := addItem_ok hrow hscript htallied number
  have hput := (wp_ok hrun).1 (put_addItem hrow hscript number w)
  refine ⟨w', hrun, hput.gained hw he htallied' ?_⟩
  have hslots : 0 ≤ (row.newStacks (w.freeSlots e) : ℤ) * row.limit := by
    have := row.limit_pos
    positivity
  rw [htotal]
  cases hfind : w.findItemByBaseid env e b with
  | none =>
    obtain ⟨rfl, rfl⟩ := hnone hfind
    omega
  | some i =>
    obtain ⟨hraised, rfl⟩ := hsome i hfind
    have hclamped := htallied.clamped i (mem_of_findItemByBaseid hfind).1
    have hnonneg := (w.itemAt i).base.clampNumber_nonneg (w.itemAt i).number
    have hle := (w.itemAt i).base.clampNumber_le_limit (w.itemAt i).number
    have hcond := hmost i hfind
    rw [hclamped] at hnonneg hle
    rcases lt_or_ge 0 ((w.itemAt i).number + (number + (w.itemAt i).number)) with hpos | hneg
    · rw [(w.itemAt i).base.clampNumber_of_pos hpos] at hraised
      omega
    · have hlower := (w.itemAt i).base.clampNumber_le_of_nonpos hneg (w.itemAt i).number
      have hraised' := (w.itemAt i).base.clampNumber_nonneg ((w.itemAt i).number + (number + (w.itemAt i).number))
      rw [hclamped] at hlower
      omega

/-! ### Tables of items -/

/-- The loop of `reward_items` grants the entries one after the other: each has a row with a script, there is a free slot
before it, and no more is added than it says. -/
def Grantable (env : Env) (e : ℤ) : List (ℤ × ℤ) → World → Prop
  | [], _ => True
  | (b, number) :: entries, w =>
    env.HasItem b ∧ ((w.pack e).items.length : ℤ) < (w.entityAt e).base.maxPackSlots ∧ w.AddsAtMost env e b number ∧
      ∀ w', addItem env e b number w = .ok () w' → Grantable env e entries w'

/-- The loop refuses its first entry, so that nothing has been granted: there is no row, or no free slot. -/
def World.RefusesItems (w : World) (env : Env) (e : ℤ) (entries : List (ℤ × ℤ)) : Prop :=
  ∀ x ∈ entries.head?, env.itemTable x.1 = none ∨ (w.entityAt e).base.maxPackSlots ≤ (w.pack e).items.length

theorem rewardItemsLoop_gained {entries : List (ℤ × ℤ)} (hgrant : Grantable env e entries w) (hw : w.Numbered n)
    (he : e < n) : ∃ w', rewardItemsLoop env e entries w = .ok true w' ∧
      Gained n e (fun a => (entries.map fun x => itemGain x.1 x.2 a).sum) w w' := by
  induction entries generalizing w with
  | nil => exact ⟨w, rfl, Gained.of_grown hw (.refl w)⟩
  | cons x entries ih =>
    obtain ⟨b, number⟩ := x
    obtain ⟨hitem, hroom, hmost, hrest⟩ := hgrant
    obtain ⟨w₁, hrun, hgained⟩ := addItem_gained hitem hmost hw he
    obtain ⟨w₂, hrun', hgained'⟩ := ih (hrest w₁ hrun) hgained.numbered
    refine ⟨w₂, ?_, hgained.trans hgained'⟩
    obtain ⟨row, hrow, -⟩ := hitem
    rw [rewardItemsLoop, if_neg (by simp [hrow]), bind_of_ok (x := get) rfl, if_neg (not_le.2 hroom), bind_of_ok hrun, hrun']

theorem rewardItemsLoop_refuses {entries : List (ℤ × ℤ)} (h : w.RefusesItems env e entries) (hne : entries ≠ []) :
    rewardItemsLoop env e entries w = .ok false w := by
  cases entries with
  | nil => exact absurd rfl hne
  | cons x entries =>
    obtain ⟨b, number⟩ := x
    rw [rewardItemsLoop]
    by_cases hrow : env.itemTable b = none
    · rw [if_pos (by simp [hrow])]
      rfl
    · rw [if_neg (by simpa using hrow), bind_of_ok (x := get) rfl, if_pos ((h (b, number) rfl).resolve_left hrow)]
      rfl

/-- The numbers that `pairs` visits are those of the table. -/
theorem sum_entries_le (numbers : List (ℤ × ℤ)) (a : Asset) :
    ((env.entries numbers).map fun x => itemGain x.1 x.2 a).sum ≤ (Grant.items numbers).amount a := by
  -- Over distinct keys, only one of them is the base id.
  have hkeys (b : ℤ) : ∀ keys : List ℤ, keys.Nodup →
      ((keys.filterMap fun k => (numbers.lookup k).map fun m => (k, m)).map fun x => itemGain x.1 x.2 (.item b)).sum =
        if b ∈ keys then max 0 ((numbers.lookup b).getD 0) else 0 := by
    intro keys hnodup
    induction keys with
    | nil => rfl
    | cons k keys ih =>
      obtain ⟨hk, hnodup⟩ := List.nodup_cons.1 hnodup
      have hrest := ih hnodup
      by_cases hkb : b = k
      · subst hkb
        rw [if_neg hk] at hrest
        rw [if_pos (List.mem_cons_self ..)]
        cases hlookup : numbers.lookup b with
        | none =>
          rw [List.filterMap_cons_none (by rw [hlookup]; rfl), hrest]
          rfl
        | some m =>
          rw [List.filterMap_cons_some (by rw [hlookup]; rfl), List.map_cons, List.sum_cons, hrest, itemGain, if_pos rfl,
            add_zero]
          rfl
      · simp only [List.mem_cons, hkb, false_or]
        cases hlookup : numbers.lookup k with
        | none => rw [List.filterMap_cons_none (by rw [hlookup]; rfl), hrest]
        | some m =>
          rw [List.filterMap_cons_some (by rw [hlookup]; rfl), List.map_cons, List.sum_cons, hrest, itemGain,
            if_neg (by simpa using hkb), zero_add]
  cases a with
  | item b =>
    rw [Env.entries, hkeys b _ ((env.pairs_perm _).nodup_iff.2 (List.nodup_dedup _))]
    show _ ≤ max 0 _
    split
    · exact le_rfl
    · exact le_max_left ..
  | _ =>
    refine le_of_eq (List.sum_eq_zero fun x hx => ?_)
    obtain ⟨y, -, rfl⟩ := List.mem_map.1 hx
    exact if_neg (by simp)

theorem entries_ne_nil {numbers : List (ℤ × ℤ)} (h : ¬ numbers.length = 0) : env.entries numbers ≠ [] := by
  obtain ⟨⟨k, m⟩, rest, rfl⟩ := List.exists_cons_of_length_pos (Nat.pos_of_ne_zero h)
  have hk : k ∈ env.pairs (((k, m) :: rest).map Prod.fst).dedup := by
    rw [env.mem_pairs, List.mem_dedup]
    exact List.mem_cons_self ..
  have hmem : (k, m) ∈ env.entries ((k, m) :: rest) :=
    List.mem_filterMap.2 ⟨k, hk, by rw [List.lookup_cons_self]; rfl⟩
  exact List.ne_nil_of_mem hmem

/-! ### A request -/

theorem mem_of_luaIndex {α : Type} {l : List α} {index : ℤ} {x : α} (h : luaIndex l index = some x) : x ∈ l := by
  rw [luaIndex] at h
  split at h
  · exact List.mem_of_getElem? h
  · cases h

theorem luaIndex_succ {α : Type} (l : List α) (i : ℕ) : luaIndex l ((i : ℤ) + 1) = l[i]? := by
  rw [luaIndex, if_pos (by omega), show ((i : ℤ) + 1 - 1).toNat = i by omega]

theorem filterMap_getElem?_range {α : Type} (l : List α) : (List.range l.length).filterMap (fun i => l[i]?) = l := by
  induction l with
  | nil => rfl
  | cons x l ih =>
    rw [List.length_cons, List.range_succ_eq_map, List.filterMap_cons, List.filterMap_map]
    exact congrArg (x :: ·) ih

theorem luaKeys_eq {α : Type} (l : List α) : luaKeys l = (List.range l.length).map fun i : ℕ => (i : ℤ) + 1 := by
  rw [luaKeys, bind_pure_comp, List.map_eq_map, List.map_map]
  rfl

/-- An array is filled again in any order without one of its elements. -/
theorem perm_leftover {α : Type} {l : List α} {index : ℤ} {x : α} (h : luaIndex l index = some x) :
    l.Perm (x :: env.leftover l index) := by
  have hall : (luaKeys l).filterMap (luaIndex l) = l := by
    rw [luaKeys_eq, List.filterMap_map]
    exact (List.filterMap_congr fun i _ => luaIndex_succ l i).trans (filterMap_getElem?_range l)
  have hnodup : (luaKeys l).Nodup := by
    rw [luaKeys_eq]
    exact List.nodup_range.map fun i j hij => by simpa using hij
  have hmem : index ∈ luaKeys l := by
    rw [luaIndex] at h
    split at h
    · obtain ⟨hlt, -⟩ := List.getElem?_eq_some_iff.1 h
      rw [luaKeys_eq]
      exact List.mem_map.2 ⟨(index - 1).toNat, List.mem_range.2 hlt, by omega⟩
    · cases h
  have hkeys : (luaKeys l).Perm (index :: env.pairs ((luaKeys l).filter fun i => i ≠ index)) := by
    refine (List.perm_cons_erase hmem).trans (List.Perm.cons _ ?_)
    refine List.Perm.trans ?_ (env.pairs_perm _).symm
    rw [hnodup.erase_eq_filter]
    refine List.Perm.of_eq (List.filter_congr fun i _ => ?_)
    rw [bne, beq_eq_decide, decide_not]
  have hperm := hkeys.filterMap (luaIndex l)
  rw [hall, List.filterMap_cons_some h] at hperm
  exact hperm
/-- The items of the reward, if it comes to them. -/
def Reward.table (r : Reward) (entry : ℤ) : Option (List (ℤ × ℤ)) :=
  match r.cards, r.items.bind fun items => luaIndex items entry with
  | none, some (.table numbers) => some numbers
  | _, _ => none

/-- What `Entity:event_reward` does: it grants one entry of the reward, or nothing. -/
theorem wp_eventReward (fuel : ℕ) (rewards : List Reward) (index entry : ℤ) (hw : w.Numbered n) (he : e < n)
    (hfits : ∀ numbers, (luaIndex rewards index).bind (Reward.table · entry) = some numbers →
      (w.entityAt e).death = false →
      w.RefusesItems env e (env.entries numbers) ∨ Grantable env e (env.entries numbers) w) :
    wp (eventReward env fuel e rewards index entry)
      (fun rc w' => if rc then ∃ reward grant, luaIndex rewards index = some reward ∧ reward.Offers grant ∧
        Gained n e grant.amount w w' else w' = w)
      (fun _ w' => Gained n e (fun _ => 0) w w') w := by
  have hgrown {w' : World} (h : Grown w w') : Gained n e (fun _ => 0) w w' := .of_grown hw h
  rw [eventReward, wp_bind, wp_get, wp_ite]
  refine ⟨fun _ => rfl, fun hdeath => ?_⟩
  have hdeath := Bool.eq_false_of_not_eq_true hdeath
  split
  · rfl
  · rename_i hreward
    rw [rewardCards]
    split
    · rfl
    · rename_i baseid hentry
      rw [wp_ite]
      refine ⟨fun _ => rfl, fun _ => ?_⟩
      rw [wp_bind, wp_get, wp_ite]
      refine ⟨fun _ => rfl, fun _ => ?_⟩
      rw [wp_bind, wp_discard]
      refine wp_mono (wp_grantCard hw he baseid) (fun _ w' h => ?_) fun _ _ => hgrown
      exact ⟨_, .card baseid, hreward, ⟨_, rfl, mem_of_luaIndex hentry⟩, h⟩
  · rename_i items _ _ hreward
    rw [rewardItems]
    split
    · rfl
    · rfl
    · rename_i numbers hentry
      rw [wp_ite]
      refine ⟨fun _ => rfl, fun hsize => ?_⟩
      have htable : (luaIndex rewards index).bind (Reward.table · entry) = some numbers := by
        rw [hreward, Option.bind_some, Reward.table]
        simp only [Option.bind_some, hentry]
      rcases hfits numbers htable hdeath with hrefuses | hgrant
      · rw [wp_ok (rewardItemsLoop_refuses hrefuses (entries_ne_nil hsize))]
        rfl
      · obtain ⟨w', hrun, hgained⟩ := rewardItemsLoop_gained hgrant hw he
        rw [wp_ok hrun]
        exact ⟨_, .items numbers, hreward, ⟨_, rfl, mem_of_luaIndex hentry⟩, hgained.mono (sum_entries_le numbers)⟩
  · rename_i gold _ hreward
    rw [wp_bind]
    refine wp_mono (wp_grantGold hw he gold) (fun _ w' h => ?_) fun _ w' h => ?_
    · exact ⟨_, .gold gold, hreward, rfl, h⟩
    · rw [h]
      exact hgrown (.refl w)
  · rename_i puppets hreward
    rw [rewardPuppets]
    split
    · rfl
    · rename_i baseid hentry
      rw [wp_ite]
      refine ⟨fun _ => rfl, fun _ => ?_⟩
      rw [wp_bind, wp_get, wp_ite]
      refine ⟨fun _ => rfl, fun _ => ?_⟩
      rw [wp_bind, wp_discard]
      refine wp_mono (wp_grantPuppet hw he fuel baseid) (fun _ w' h => ?_) fun _ _ => hgrown
      exact ⟨_, .puppet baseid, hreward, ⟨_, rfl, mem_of_luaIndex hentry⟩, h⟩
  · rfl

theorem World.openEvent_eq_some {eventid : ℤ} {category : EventCategory} {event : Event}
    (h : w.openEvent e eventid category = some event) :
    ∃ s, w.scene = some s ∧ e ∈ s.members ∧ s.triggerEvent = some event := by
  rw [World.openEvent, Option.bind_eq_some_iff] at h
  obtain ⟨s, hs, h⟩ := h
  split at h
  · cases h
  · rename_i hmem
    exact ⟨s, hs, not_not.1 hmem, (Option.filter_eq_some_iff.1 h).1⟩

/-- Who may make a request is a member, and the rewards are those of the event. -/
theorem World.eventArgs_reward {eventid : ℤ} {rewards : List Reward}
    (h : w.eventArgs e eventid .reward Content.reward = some rewards) :
    (∃ s, w.scene = some s ∧ e ∈ s.members) ∧ w.rewards = rewards := by
  rw [World.eventArgs, Option.bind_eq_some_iff] at h
  obtain ⟨event, hopen, hcontent⟩ := h
  obtain ⟨s, hs, hmem, htrigger⟩ := World.openEvent_eq_some hopen
  refine ⟨⟨s, hs, hmem⟩, ?_⟩
  rw [World.rewards, hs, Option.bind_some, htrigger, Option.bind_some, hcontent]
  rfl

/-- The list of rewards is replaced. -/
theorem World.rewards_left {eventid : ℤ} {rewards : List Reward}
    (h : w.eventArgs e eventid .reward Content.reward = some rewards) (hscene : w'.scene = w.touched.scene)
    (left : List Reward) : (w'.mapEvent fun event =>
      { event with content := event.content.map fun c => { c with reward := some left } }).rewards = left := by
  rw [World.eventArgs, Option.bind_eq_some_iff] at h
  obtain ⟨event, hopen, hcontent⟩ := h
  obtain ⟨s, hs, -, htrigger⟩ := World.openEvent_eq_some hopen
  obtain ⟨c, hc, -⟩ := Option.bind_eq_some_iff.1 hcontent
  rw [World.rewards, World.mapEvent, hscene, World.touched, World.mapEvent, hs]
  simp only [Option.map_some, Option.bind_some, htrigger, hc, Option.getD_some]

/-- The fields of the event do not matter for what the entities have. -/
theorem World.Numbered.mapEvent (h : w.Numbered n) (f : Event → Event) : (w.mapEvent f).Numbered n := by
  refine ⟨h.entity, fun s hs e he => ?_, h.card, fun e he => ?_, h.apart, h.puppet⟩
  · obtain ⟨s₀, hs₀, rfl⟩ := Option.map_eq_some_iff.1 hs
    exact h.member s₀ hs₀ e he
  · have := h.tallied e he
    exact ⟨this.nodup, this.made, this.clamped⟩

theorem World.amount_mapEvent (w : World) (f : Event → Event) (i : ℤ) (a : Asset) :
    (w.mapEvent f).amount i a = w.amount i a := by
  cases a <;> rfl

theorem World.rewards_mapEvent (w : World) {f : Event → Event} (hf : ∀ event, (f event).content = event.content) :
    (w.mapEvent f).rewards = w.rewards := by
  rw [World.rewards, World.rewards, World.mapEvent]
  cases w.scene with
  | none => rfl
  | some s =>
    show (((s.triggerEvent.map f).bind Event.content).bind Content.reward).getD [] = _
    rw [Option.bind_map]
    congr 2
    exact Option.bind_congr fun event _ => hf event

end Steps

/-! ### Sequences of requests -/

/-- A request for a reward. -/
structure RewardCall where
  entity : ℤ
  eventid : ℤ
  index : ℤ
  entry : ℤ

namespace RewardCall

/-- What the request runs. -/
def run (call : RewardCall) (env : Env) (fuel : ℕ) : Run Bool :=
  sceneEventReward env fuel call.entity call.eventid call.index call.entry

/-- The table of items that is asked for, if it comes to one. -/
def table (call : RewardCall) (w : World) : Option (List (ℤ × ℤ)) :=
  (w.eventArgs call.entity call.eventid .reward Content.reward).bind fun rewards =>
    (luaIndex rewards call.index).bind fun reward => reward.table call.entry

/-- A table of items is granted as a whole, or refused at its first base id. The event has been touched before. -/
def Fits (call : RewardCall) (env : Env) (w : World) : Prop :=
  ∀ numbers, call.table w = some numbers → (w.entityAt call.entity).death = false →
    w.RefusesItems env call.entity (env.entries numbers) ∨ Grantable env call.entity (env.entries numbers) w.touched

/-- What a request should do: if it returns true then one entry of a reward has been granted, and this reward is taken
from the list; if it returns false then nothing has changed; and if it raises then nobody has got anything. -/
def Fair (call : RewardCall) (env : Env) (fuel : ℕ) (n : ℤ) (w : World) : Prop :=
  wp (call.run env fuel)
    (fun rc w' => if rc then ∃ reward grant, reward.Offers grant ∧ Gains n call.entity grant.amount w w' ∧
        w.rewards.Perm (reward :: w'.rewards)
      else Beside w w' ∧ w'.rewards = w.rewards)
    (fun _ w' => Gains n call.entity (fun _ => 0) w w' ∧ w'.rewards = w.rewards) w

end RewardCall

/-- Members make requests for rewards, one after the other. -/
def rewardMachine (env : Env) (fuel : ℕ) : Machine World RewardCall where
  step w call := some (endState (call.run env fuel) w)

/-- A reward of which an entry has been granted to an entity. -/
structure Claim where
  entity : ℤ
  reward : Reward
  grant : Grant

/-- What has been granted: an entry of each reward that is not left, and nobody has got more. -/
structure Accounted (n : ℤ) (w w' : World) (claims : List Claim) : Prop where
  offers : ∀ c ∈ claims, c.reward.Offers c.grant
  rewards : w.rewards.Perm (claims.map Claim.reward ++ w'.rewards)
  amount : ∀ i < n, ∀ a, w'.amount i a ≤
    w.amount i a + ((claims.filter fun c => c.entity = i).map fun c => c.grant.amount a).sum

section Runs

variable {n : ℤ} {fuel : ℕ} {w w' : World}

theorem Accounted.trans {w'' : World} {claims claims' : List Claim} (h : Accounted n w w' claims)
    (h' : Accounted n w' w'' claims') : Accounted n w w'' (claims ++ claims') := by
  refine ⟨fun c hc => ?_, ?_, fun i hi a => ?_⟩
  · rcases List.mem_append.1 hc with hc | hc
    · exact h.offers c hc
    · exact h'.offers c hc
  · rw [List.map_append, List.append_assoc]
    exact h.rewards.trans (h'.rewards.append_left _)
  · have h₁ := h.amount i hi a
    have h₂ := h'.amount i hi a
    rw [List.filter_append, List.map_append, List.sum_append]
    omega

/-- Requests that fit are fair. -/
theorem RewardCall.fair (fuel : ℕ) {call : RewardCall} (hw : w.Numbered n) (hfits : call.Fits env w) :
    call.Fair env fuel n w ∧ (endState (call.run env fuel) w).Numbered n := by
  have htouched := World.rewards_mapEvent w (f := fun event => { event with touch := true }) fun _ => rfl
  -- The event has been touched, which is no gain.
  have hgains {g : Asset → ℤ} {w' : World} (h : Gains n call.entity g w.touched w') : Gains n call.entity g w w' := by
    intro i hi a
    have := h i hi a
    rwa [World.touched, World.amount_mapEvent] at this
  have hboth : wp (call.run env fuel)
      (fun rc w' => (if rc then ∃ reward grant, reward.Offers grant ∧ Gains n call.entity grant.amount w w' ∧
        w.rewards.Perm (reward :: w'.rewards) else Beside w w' ∧ w'.rewards = w.rewards) ∧ w'.Numbered n)
      (fun _ w' => (Gains n call.entity (fun _ => 0) w w' ∧ w'.rewards = w.rewards) ∧ w'.Numbered n) w := by
    have hnothing : Gains n call.entity (fun _ => 0) w w := fun i hi a => by rw [ite_self, add_zero]
    rw [RewardCall.run, sceneEventReward, atEvent, wp_bind]
    refine wp_touchEvent (fun _ => ⟨⟨⟨⟨rfl, rfl, rfl, rfl⟩, rfl⟩, hw⟩, ⟨hnothing, rfl⟩, hw⟩) fun rewards hargs => ?_
    obtain ⟨⟨s, hs, hmem⟩, hrewards⟩ := World.eventArgs_reward hargs
    have he : call.entity < n := hw.member s hs _ hmem
    have hgrant := wp_eventReward fuel rewards call.index call.entry
      (hw.mapEvent fun event => { event with touch := true }) he fun numbers htable hdeath =>
        hfits numbers (by rw [RewardCall.table, hargs]; exact htable) hdeath
    show wp (eventReward env fuel call.entity rewards call.index call.entry >>= _) _ _ w.touched
    rw [wp_bind]
    refine wp_mono hgrant (fun rc w₁ hrc => ?_) fun _ w₁ hgained => ?_
    · cases rc with
      | false =>
        obtain rfl : w₁ = _ := hrc
        exact ⟨⟨⟨rfl, rfl, rfl, rfl⟩, htouched⟩, hw.mapEvent _⟩
      | true =>
        obtain ⟨reward, grant, hindex, hoffers, hgained⟩ := hrc
        have hleft := World.rewards_left hargs hgained.scene (env.leftover rewards call.index)
        show wp (removeReward env rewards call.index >>= _) _ _ w₁
        rw [wp_bind, removeReward, wp_bind, wp_assertion]
        refine ⟨fun _ => ?_, fun hnone => absurd (by rw [hindex]; rfl) hnone⟩
        rw [wp_bind, modifyEvent, wp_modify]
        -- Whether the client is told about the rest makes no difference.
        have hdone {w₂ : World} (hnumbered : w₂.Numbered n) (hamount : ∀ i a, w₂.amount i a = w₁.amount i a)
            (hrest : w₂.rewards = env.leftover rewards call.index) : (∃ reward grant, reward.Offers grant ∧
              Gains n call.entity grant.amount w w₂ ∧ w.rewards.Perm (reward :: w₂.rewards)) ∧ w₂.Numbered n := by
          refine ⟨⟨reward, grant, hoffers, fun i hi a => ?_, ?_⟩, hnumbered⟩
          · rw [hamount]
            exact hgains hgained.gains i hi a
          · rw [hrest, hrewards]
            exact perm_leftover hindex
        rw [wp_ite]
        refine ⟨fun _ => hdone ?_ (fun i a => ?_) ?_, fun _ => hdone ?_ (fun i a => ?_) hleft⟩
        · exact (hgained.numbered.mapEvent _).mapEvent _
        · rw [World.amount_mapEvent, World.amount_mapEvent]
        · exact (World.rewards_mapEvent _ (f := fun event => { event with trigger := true }) fun _ => rfl).trans hleft
        · exact hgained.numbered.mapEvent _
        · rw [World.amount_mapEvent]
    · refine ⟨⟨hgains hgained.gains, ?_⟩, hgained.numbered⟩
      rw [World.rewards, hgained.scene]
      exact htouched
  exact ⟨wp_mono hboth (fun _ _ h => h.1) fun _ _ h => h.1,
    endState_of_wp (wp_mono hboth (fun _ _ h => h.2) fun _ _ h => h.2)⟩

/-- A fair request is accounted for. -/
theorem RewardCall.Fair.accounted {call : RewardCall} (h : call.Fair env fuel n w) :
    ∃ claims, Accounted n w (endState (call.run env fuel) w) claims := by
  have hnone {w' : World} (hgains : Gains n call.entity (fun _ => 0) w w') (hrewards : w'.rewards = w.rewards) :
      ∃ claims, Accounted n w w' claims := by
    refine ⟨[], nofun, .of_eq hrewards.symm, fun i hi a => ?_⟩
    have := hgains i hi a
    rwa [ite_self] at this
  refine endState_of_wp (P := fun w' => ∃ claims, Accounted n w w' claims)
    (wp_mono h (fun rc w' hrc => ?_) fun _ w' hraise => hnone hraise.1 hraise.2)
  cases rc with
  | false =>
    obtain ⟨hbeside, hrewards⟩ : Beside w w' ∧ w'.rewards = w.rewards := hrc
    refine hnone (fun i hi a => ?_) hrewards
    rw [ite_self, add_zero, World.amount, World.amount, hbeside.pack i]
    cases a <;> simp only [World.amountIn, hbeside.cardAt, hbeside.itemAt, hbeside.entityAt, le_refl]
  | true =>
    obtain ⟨reward, grant, hoffers, hgains, hperm⟩ := hrc
    refine ⟨[⟨call.entity, reward, grant⟩], fun c hc => ?_, hperm, fun i hi a => ?_⟩
    · rw [List.mem_singleton.1 hc]
      exact hoffers
    · refine (hgains i hi a).trans (le_of_eq ?_)
      by_cases hie : i = call.entity
      · simp [hie]
      · simp [hie, Ne.symm hie]

end Runs

/-- **Rewards are granted at most once**, with at most one of their entries, in every sequence of requests by any members
in which tables of items are granted as a whole or refused at their first base id: every request that returns false
leaves all as it was, and together with the rewards that are left, those that have been granted are the rewards that
there were. -/
theorem rewards_granted_once {n : ℤ} {fuel : ℕ} {w : World} {calls : List RewardCall} (hw : w.Numbered n)
    (hfits : (rewardMachine env fuel).Guarded (fun w call => call.Fits env w) w calls) :
    (rewardMachine env fuel).Guarded (fun w call => call.Fair env fuel n w) w calls ∧
      ∀ w', (rewardMachine env fuel).run w calls = some w' → ∃ claims, Accounted n w w' claims := by
  induction calls generalizing w with
  | nil =>
    refine ⟨trivial, fun w' hrun => ?_⟩
    cases hrun
    exact ⟨[], nofun, .refl _, fun i hi a => by simp⟩
  | cons call calls ih =>
    obtain ⟨hcall, hrest⟩ := hfits
    obtain ⟨hfair, hnumbered⟩ := RewardCall.fair fuel hw hcall
    obtain ⟨hguarded, hclaims⟩ := ih hnumbered (hrest _ rfl)
    refine ⟨⟨hfair, fun w₁ hstep => ?_⟩, fun w' hrun => ?_⟩
    · cases hstep
      exact hguarded
    · obtain ⟨claims, hfirst⟩ := hfair.accounted
      obtain ⟨claims', hlater⟩ := hclaims w' hrun
      exact ⟨claims ++ claims', hfirst.trans hlater⟩

/-- An entity with so many slots at an event that offers gold, or two items together. -/
def chest (slots : ℤ) : World where
  entityAt _ := { base := { maxPackSlots := slots } }
  nextEntity := 2
  scene := some {
    members := [1]
    triggerEvent := some {
      id := 3, category := .reward
      content := some { reward := some [{ gold := some 5 }, { items := some [.table [(8, 1), (9, 1)]] }] } } }

theorem chest_numbered (slots : ℤ) : (chest slots).Numbered 2 := by
  refine ⟨le_rfl, ?_, nofun, fun _ _ => ⟨List.nodup_nil, nofun, nofun⟩, nofun, nofun⟩
  rintro s ⟨rfl⟩ e he
  rw [List.mem_singleton.1 he]
  decide

/-- With two slots both items are granted, and then the gold. -/
theorem rewards_granted_once_chest : (chest 2).Numbered 2 ∧
    ∃ w', (rewardMachine plainEnv 0).run (chest 2) [⟨1, 3, 2, 1⟩, ⟨1, 3, 1, 1⟩] = some w' ∧
      ∃ claims, Accounted 2 (chest 2) w' claims := by
  obtain ⟨w', hrun⟩ : ∃ w', (rewardMachine plainEnv 0).run (chest 2) [⟨1, 3, 2, 1⟩, ⟨1, 3, 1, 1⟩] = some w' := ⟨_, rfl⟩
  have hfits : (rewardMachine plainEnv 0).Guarded (fun w call => call.Fits plainEnv w) (chest 2)
      [⟨1, 3, 2, 1⟩, ⟨1, 3, 1, 1⟩] := by
    refine ⟨?_, fun u hu => ?_⟩
    · rintro numbers ⟨rfl⟩ -
      refine .inr ⟨⟨_, rfl, rfl⟩, by decide, nofun, fun u hu => ?_⟩
      cases hu
      exact ⟨⟨_, rfl, rfl⟩, by decide, nofun, fun _ _ => trivial⟩
    · cases hu
      exact ⟨nofun, fun _ _ => trivial⟩
  exact ⟨chest_numbered 2, w', hrun, (rewards_granted_once (chest_numbered 2) hfits).2 w' hrun⟩

/-- **They are not in general**: with one slot the first item is granted and the second is not, the request returns false
and the reward is still there. -/
theorem refused_grant_is_kept : (chest 1).Numbered 2 ∧
    ¬ ((rewardMachine plainEnv 0).Guarded (fun w call => call.Fair plainEnv 0 2 w) (chest 1) [⟨1, 3, 2, 1⟩] ∧
      ∀ w', (rewardMachine plainEnv 0).run (chest 1) [⟨1, 3, 2, 1⟩] = some w' →
        ∃ claims, Accounted 2 (chest 1) w' claims) := by
  refine ⟨chest_numbered 1, fun h => ?_⟩
  have hfair := h.1.1
  obtain ⟨w', hrun⟩ : ∃ w', RewardCall.run ⟨1, 3, 2, 1⟩ plainEnv 0 (chest 1) = .ok false w' := ⟨_, rfl⟩
  have hitems : ((endState (RewardCall.run ⟨1, 3, 2, 1⟩ plainEnv 0) (chest 1)).pack 1).items.length = 1 := by
    decide +kernel
  have hbeside : Beside (chest 1) w' := ((wp_ok hrun).1 hfair).1
  rw [endState_of_ok hrun, hbeside.pack] at hitems
  cases hitems

end Slam.Game
