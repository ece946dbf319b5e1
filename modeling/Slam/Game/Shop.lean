import Slam.Game.Event

/-!
# Shops: an exchange or nothing

A request at a shop should be an exchange: the price is taken and the goods change hands, or nothing
happens. `shop_atomic_iff` says for each of the five requests, for every world and every argument, when
it is one.

Destroying a card always is, and so is buying an item, since it never succeeds. Buying a card takes the
gold before the card is made and reports the shop afterwards, either of which may raise. Levelling up a
card does not take the price, and levelling up a puppet takes it and then raises.
-/

namespace Slam.Game

open Raising

variable {env : Env}

/-! ### What changes hands -/

/-- What an entity owns. -/
structure Holdings where
  gold : ℤ
  cards : List ℤ
  items : List ℤ
  puppets : List ℤ
  placeholders : List (ℤ × ℤ)

def Pack.holdings (p : Pack) : Holdings :=
  { gold := p.gold, cards := p.cards, items := p.items, puppets := p.puppets, placeholders := p.placeholders }

/-- Nobody owns anything else than before. -/
structure Unchanged (w w' : World) : Prop where
  holdings : ∀ i, (w'.pack i).holdings = (w.pack i).holdings
  itemAt : w'.itemAt = w.itemAt

/-- A request at a shop. -/
inductive ShopCall
  | purchaseCard (e eventid baseid : ℤ)
  | purchaseItem (e eventid baseid : ℤ)
  | destroyCard (e eventid c : ℤ)
  | levelupCard (e eventid c : ℤ)
  | levelupPuppet (e eventid target : ℤ)

namespace ShopCall

def run (env : Env) : ShopCall → Run Bool
  | purchaseCard e eventid baseid => scenePurchaseCard env e eventid baseid
  | purchaseItem e eventid baseid => scenePurchaseItem env e eventid baseid
  | destroyCard e eventid c => sceneDestroyCard e eventid c
  | levelupCard e eventid c => sceneLevelupCard env e eventid c
  | levelupPuppet e eventid target => sceneLevelupPuppet env e eventid target

/-- The entity that asks. -/
def entity : ShopCall → ℤ
  | purchaseCard e _ _ | purchaseItem e _ _ | destroyCard e _ _ | levelupCard e _ _ | levelupPuppet e _ _ => e

end ShopCall

/-- The exchange that a request asks for has happened: the price is gone and the goods are there. -/
def ShopCall.Exchanged (env : Env) (w w' : World) : ShopCall → Prop
  | purchaseCard e _ baseid => ∃ price new,
      (env.cardTable baseid).bind CardBase.priceGold = some price ∧ new ∉ (w.pack e).cards ∧
      (w'.cardAt new).baseid = baseid ∧
      (w'.pack e).holdings = { (w.pack e).holdings with
        gold := (w.pack e).gold - price, cards := (w.pack e).cards ++ [new] }
  | purchaseItem e _ baseid => ∃ price items,
      (env.itemTable baseid).bind ItemBase.priceGold = some price ∧
      w'.itemCount e baseid = w.itemCount e baseid + 1 ∧
      (w'.pack e).holdings = { (w.pack e).holdings with gold := (w.pack e).gold - price, items := items }
  | destroyCard e eventid c => ∃ args price,
      w.eventArgs e eventid .shopDestroyCard Content.destroyCard = some args ∧ args.priceGold = some price ∧
      c ∈ (w.pack e).cards ∧
      (w'.pack e).holdings = { (w.pack e).holdings with
        gold := (w.pack e).gold - price, cards := (w.pack e).cards.erase c }
  | levelupCard e eventid c => ∃ args price baseid new,
      w.eventArgs e eventid .shopLevelupCard Content.levelupCard = some args ∧ args.priceGold = some price ∧
      c ∈ (w.pack e).cards ∧ (w.cardAt c).base.levelupBaseid = some baseid ∧ new ∉ (w.pack e).cards.erase c ∧
      (w'.cardAt new).baseid = baseid ∧
      (w'.pack e).holdings = { (w.pack e).holdings with
        gold := (w.pack e).gold - price, cards := (w.pack e).cards.erase c ++ [new] }
  | levelupPuppet e eventid target => ∃ args price baseid new,
      w.eventArgs e eventid .shopLevelupPuppet Content.levelupPuppet = some args ∧ args.priceGold = some price ∧
      target ∈ (w.pack e).puppets ∧ (w.entityAt target).base.levelupBaseid = some baseid ∧
      (w'.entityAt new).baseid = baseid ∧
      (w'.pack e).holdings = { (w.pack e).holdings with
        gold := (w.pack e).gold - price, puppets := (w.pack e).puppets.erase target ++ [new] }

/-- What a request that returns has done: if it returns true then the exchange has happened and nobody
else has been touched, and if it returns false then nothing has changed hands. -/
def ShopCall.Done (env : Env) (call : ShopCall) (w : World) : Bool → World → Prop
  | true, w' => call.Exchanged env w w' ∧ ∀ i ≠ call.entity, (w'.pack i).holdings = (w.pack i).holdings
  | false, w' => Unchanged w w'

/-- The request is an exchange or nothing, also if it raises. -/
def ShopCall.Atomic (env : Env) (call : ShopCall) (w : World) : Prop :=
  wp (call.run env) (call.Done env w) (fun _ w' => Unchanged w w') w

/-! ### When it is one -/

/-- `Entity:purchase_card` does not refuse. -/
structure World.Buys (w : World) (env : Env) (e baseid : ℤ) (shop : Shop) (price : ℤ) : Prop where
  living : (w.entityAt e).death = false
  sold : baseid ∈ shop.cards.getD []
  priced : (env.cardTable baseid).bind CardBase.priceGold = some price
  gold : price ≤ (w.pack e).gold
  room : (w.pack e).cards.length < (w.entityAt e).base.maxCards

/-- `Entity:levelup_card` does not refuse. -/
structure World.LevelsCard (w : World) (env : Env) (e c : ℤ) (args : Price) (price baseid : ℤ) : Prop where
  living : (w.entityAt e).death = false
  priced : args.priceGold = some price
  owned : c ∈ (w.pack e).cards
  gold : price ≤ (w.pack e).gold
  levelup : (w.cardAt c).base.levelupBaseid = some baseid
  notTop : baseid ≠ 0
  row : (env.cardTable baseid).isSome

/-- `Entity:levelup_puppet` does not refuse. -/
structure World.LevelsPuppet (w : World) (env : Env) (e target : ℤ) (args : Price) (price baseid : ℤ) : Prop where
  living : (w.entityAt e).death = false
  priced : args.priceGold = some price
  owned : target ∈ (w.pack e).puppets
  levelup : (w.entityAt target).base.levelupBaseid = some baseid
  notTop : baseid ≠ 0
  row : (env.entityTable baseid).isSome
  gold : price ≤ (w.pack e).gold

/-- A card can be made and added: its row names a script that exists, and its identifier is not in use. -/
def World.Makes (w : World) (env : Env) (baseid : ℤ) (cards : List ℤ) : Prop :=
  (∃ base, env.cardTable baseid = some base ∧ base.scriptFunc.isSome) ∧ w.nextCard ∉ cards

/-- All that a shop sells has a row. -/
def Shop.Listed (shop : Shop) (env : Env) : Prop :=
  (∀ baseid ∈ shop.cards.getD [], (env.cardTable baseid).isSome) ∧
  ∀ baseid ∈ shop.items.getD [], (env.itemTable baseid).isSome

/-- What a request needs to be an exchange or nothing. -/
def ShopCall.Safe (env : Env) (w : World) : ShopCall → Prop
  | purchaseCard e eventid baseid => ∀ shop price,
      w.eventArgs e eventid .shopBuyCard Content.shop = some shop → w.Buys env e baseid shop price →
      0 ≤ (w.pack e).gold →
      (w.Makes env baseid (w.pack e).cards → shop.Listed env) ∧
      (¬ w.Makes env baseid (w.pack e).cards → price = 0)
  | purchaseItem _ _ _ => True
  | destroyCard _ _ _ => True
  | levelupCard e eventid c => ∀ args price baseid,
      w.eventArgs e eventid .shopLevelupCard Content.levelupCard = some args →
      w.LevelsCard env e c args price baseid →
      w.Makes env baseid ((w.pack e).cards.erase c) ∧ price = 0
  | levelupPuppet e eventid target => ∀ args price baseid,
      w.eventArgs e eventid .shopLevelupPuppet Content.levelupPuppet = some args →
      w.LevelsPuppet env e target args price baseid → 0 ≤ (w.pack e).gold → price = 0

/-! ### The parts of a request -/

/-- A change of the event only. -/
structure Beside (w w' : World) : Prop where
  entityAt : w'.entityAt = w.entityAt
  cardAt : w'.cardAt = w.cardAt
  itemAt : w'.itemAt = w.itemAt
  nextCard : w'.nextCard = w.nextCard

namespace Beside

variable {w w' : World}

theorem pack (h : Beside w w') (i : ℤ) : w'.pack i = w.pack i := by rw [World.pack, h.entityAt, World.pack]

theorem unchanged (h : Beside w w') : Unchanged w w' := ⟨fun i => by rw [h.pack i], h.itemAt⟩

theorem buys (h : Beside w w') {e baseid price : ℤ} {shop : Shop} :
    w'.Buys env e baseid shop price ↔ w.Buys env e baseid shop price := by
  constructor
  · rintro ⟨h₁, h₂, h₃, h₄, h₅⟩
    rw [h.pack] at h₄ h₅
    rw [h.entityAt] at h₁ h₅
    exact ⟨h₁, h₂, h₃, h₄, h₅⟩
  · rintro ⟨h₁, h₂, h₃, h₄, h₅⟩
    rw [← h.pack] at h₄ h₅
    rw [← h.entityAt] at h₁ h₅
    exact ⟨h₁, h₂, h₃, h₄, h₅⟩

theorem levelsCard (h : Beside w w') {e c price baseid : ℤ} {args : Price} :
    w'.LevelsCard env e c args price baseid ↔ w.LevelsCard env e c args price baseid := by
  constructor
  · rintro ⟨h₁, h₂, h₃, h₄, h₅, h₆, h₇⟩
    rw [h.pack] at h₃ h₄
    rw [h.entityAt] at h₁
    rw [h.cardAt] at h₅
    exact ⟨h₁, h₂, h₃, h₄, h₅, h₆, h₇⟩
  · rintro ⟨h₁, h₂, h₃, h₄, h₅, h₆, h₇⟩
    rw [← h.pack] at h₃ h₄
    rw [← h.entityAt] at h₁
    rw [← h.cardAt] at h₅
    exact ⟨h₁, h₂, h₃, h₄, h₅, h₆, h₇⟩

theorem levelsPuppet (h : Beside w w') {e target price baseid : ℤ} {args : Price} :
    w'.LevelsPuppet env e target args price baseid ↔ w.LevelsPuppet env e target args price baseid := by
  constructor
  · rintro ⟨h₁, h₂, h₃, h₄, h₅, h₆, h₇⟩
    rw [h.pack] at h₃ h₇
    rw [h.entityAt] at h₁ h₄
    exact ⟨h₁, h₂, h₃, h₄, h₅, h₆, h₇⟩
  · rintro ⟨h₁, h₂, h₃, h₄, h₅, h₆, h₇⟩
    rw [← h.pack] at h₃ h₇
    rw [← h.entityAt] at h₁ h₄
    exact ⟨h₁, h₂, h₃, h₄, h₅, h₆, h₇⟩

end Beside

/-- The entity has paid, and nothing else has changed hands. -/
structure Paid (e price : ℤ) (w w' : World) : Prop where
  pack : ∀ i, w'.pack i = if i = e then { w.pack e with gold := (w.pack e).gold - price } else w.pack i
  cardAt : w'.cardAt = w.cardAt
  itemAt : w'.itemAt = w.itemAt
  nextCard : w'.nextCard = w.nextCard

/-- Paying a price that one has. -/
theorem wp_pay {w : World} {e price : ℤ} {Q : Unit → World → Prop} {E : Fault → World → Prop}
    (hprice : price ≤ (w.pack e).gold) (hpoor : (w.pack e).gold < 0 → E (.assertion .addGold) w)
    (hpay : 0 ≤ (w.pack e).gold → ∀ w', Paid e price w w' → Q () w') : wp (addGold e (-price)) Q E w := by
  simp only [addGold, wp_bind, wp_getPack, wp_assertion, wp_modifyPack, wp_notify]
  refine ⟨fun hgold => ?_, fun hgold => hpoor (not_le.1 hgold)⟩
  have heq : max 0 ((w.pack e).gold + -price) = (w.pack e).gold - price := by omega
  rw [heq]
  exact hpay hgold _ ⟨fun i => World.pack_setPack .., rfl, rfl, rfl⟩

/-- A card that can be made is added. -/
theorem wp_addCard_of_makes {w : World} {e baseid : ℤ} (h : w.Makes env baseid (w.pack e).cards) :
    wp (addCard env e baseid) (fun c w' => c = w.nextCard ∧
        (∀ i, w'.pack i = if i = e then { w.pack e with cards := (w.pack e).cards ++ [c] } else w.pack i) ∧
        w'.itemAt = w.itemAt ∧ (w'.cardAt c).baseid = baseid) (fun _ _ => False) w := by
  obtain ⟨⟨base, hbase, hscript⟩, hfresh⟩ := h
  simp only [addCard, cardNew, wp_bind, wp_get, wp_modify, hbase, wp_assertion, wp_pure, wp_getPack, wp_modifyPack,
    wp_notify]
  refine ⟨fun _ => ⟨fun _ => ⟨trivial, fun i => World.pack_setPack .., rfl, ?_⟩, fun h => h hfresh⟩,
    fun h => h hscript⟩
  show (Function.update w.cardAt w.nextCard { baseid := baseid, base := base } w.nextCard).baseid = baseid
  rw [Function.update_self]

/-- A card that cannot be made is not added, and this raises. -/
theorem wp_addCard_of_not_makes {w : World} {e baseid : ℤ} (h : ¬ w.Makes env baseid (w.pack e).cards) :
    wp (addCard env e baseid) (fun _ _ => False) (fun _ w' => w'.entityAt = w.entityAt ∧ w'.itemAt = w.itemAt) w := by
  simp only [addCard, cardNew, wp_bind, wp_get, wp_modify]
  split
  · exact ⟨rfl, rfl⟩
  · rename_i base hbase
    simp only [wp_bind, wp_modify, wp_assertion, wp_pure, wp_getPack]
    refine ⟨fun hscript => ⟨fun hfresh => ?_, fun _ => ⟨rfl, rfl⟩⟩, fun _ => ⟨rfl, rfl⟩⟩
    exact absurd ⟨⟨base, hbase, hscript⟩, hfresh⟩ h

/-- A loop that raises at the first element that is bad. -/
theorem wp_forM_check {p : ℤ → Bool} {f : Fault} {l : List ℤ} {w : World} {Q : Unit → World → Prop}
    {E : Fault → World → Prop} : wp (l.forM fun b => if p b then (throw f : Run Unit) else pure ()) Q E w ↔
      ((∀ b ∈ l, p b = false) → Q () w) ∧ ((¬ ∀ b ∈ l, p b = false) → E f w) := by
  induction l with
  | nil => exact ⟨fun h => ⟨fun _ => h, fun hne => absurd nofun hne⟩, fun h => h.1 nofun⟩
  | cons b l ih =>
    show wp ((if p b then (throw f : Run Unit) else pure ()) >>= fun _ => l.forM _) Q E w ↔ _
    rw [wp_bind, wp_ite]
    cases hb : p b with
    | true => simp [hb]
    | false => simpa [hb] using ih

/-- The report of a shop raises unless all that it sells has a row. -/
theorem wp_dispatchShop {shop : Shop} {w : World} {Q : Unit → World → Prop} {E : Fault → World → Prop}
    (hlisted : shop.Listed env → ∀ w', Beside w w' → Q () w')
    (hunlisted : ¬ shop.Listed env → ∀ f w', Beside w w' → E f w') : wp (dispatchShop env shop) Q E w := by
  have hlisted_iff : shop.Listed env ↔ (∀ b ∈ shop.cards.getD [], (env.cardTable b).isNone = false) ∧
      ∀ b ∈ shop.items.getD [], (env.itemTable b).isNone = false := by
    simp only [Shop.Listed, ← Option.not_isSome, Bool.not_eq_false']
  rw [dispatchShop, wp_bind, modifyEvent, wp_modify, wp_bind, wp_forM_check]
  refine ⟨fun hcards => wp_forM_check.2 ⟨fun hitems => ?_, fun hitems => ?_⟩, fun hcards => ?_⟩
  · exact hlisted (hlisted_iff.2 ⟨hcards, hitems⟩) _ ⟨rfl, rfl, rfl, rfl⟩
  · exact hunlisted (fun h => hitems (hlisted_iff.1 h).2) _ _ ⟨rfl, rfl, rfl, rfl⟩
  · exact hunlisted (fun h => hcards (hlisted_iff.1 h).1) _ _ ⟨rfl, rfl, rfl, rfl⟩

/-! ### The requests -/

section Requests

variable {w w₁ : World} {e eventid c target baseid price : ℤ}

/-- A request at an event: nothing happens unless it gets its arguments, and then it goes on from a world
with the same holdings. -/
theorem wp_atEvent_iff {α : Type} {call : ShopCall} {category : EventCategory} {f : Func} {args : Content → Option α}
    {request : α → Run Bool} {S : α → Prop}
    (h : ∀ a w₁, w.eventArgs e eventid category args = some a → Beside w w₁ →
      (wp (request a) (call.Done env w) (fun _ w' => Unchanged w w') w₁ ↔ S a)) :
    wp (atEvent e eventid category f args request) (call.Done env w) (fun _ w' => Unchanged w w') w ↔
      ∀ a, w.eventArgs e eventid category args = some a → S a := by
  rw [atEvent, wp_bind]
  cases hargs : w.eventArgs e eventid category args with
  | none =>
    refine iff_of_true (wp_touchEvent (fun _ => ⟨⟨fun _ => rfl, rfl⟩, ⟨fun _ => rfl, rfl⟩⟩) fun a ha => ?_) nofun
    rw [hargs] at ha
    cases ha
  | some a =>
    obtain ⟨o, w₁, htouch, rfl, rfl⟩ := exists_ok_of_wp (wp_touchEvent (f := f)
      (Q := fun o w₁ => o = some a ∧ w₁ = w.touched) (E := fun _ _ => False)
      (fun hnone => by rw [hargs] at hnone; cases hnone)
      fun b hb => ⟨by rw [hargs] at hb; exact hb.symm, rfl⟩)
    rw [wp_ok htouch, h a w.touched hargs ⟨rfl, rfl, rfl, rfl⟩]
    simp

/-- Destroying a card is an exchange or nothing. -/
theorem atomic_destroyCard : (ShopCall.destroyCard e eventid c).Atomic env w := by
  refine (wp_atEvent_iff (S := fun _ => True) fun args w₁ hargs h => iff_of_true ?_ trivial).2 fun _ _ => trivial
  rw [destroyCard, wp_bind, wp_get, wp_ite]
  refine ⟨fun _ => h.unchanged, fun _ => ?_⟩
  split
  · exact h.unchanged
  · rename_i price hprice
    rw [wp_ite, h.pack]
    refine ⟨fun _ => h.unchanged, fun howned => ?_⟩
    rw [wp_ite]
    refine ⟨fun _ => h.unchanged, fun hgold => ?_⟩
    rw [wp_bind]
    refine wp_pay (by rw [h.pack]; exact not_lt.1 hgold) (fun _ => h.unchanged) fun _ w₂ hpaid => ?_
    have hpack : w₂.pack e = { w.pack e with gold := (w.pack e).gold - price } := by
      rw [hpaid.pack, if_pos rfl, h.pack]
    rw [removeCard, wp_bind, wp_bind, wp_getPack, wp_bind, wp_assertion, hpack]
    refine ⟨fun _ => ?_, fun hnot => absurd (not_not.1 howned) hnot⟩
    rw [wp_bind, wp_modifyPack, wp_notify, hpack]
    refine ⟨⟨args, price, hargs, hprice, not_not.1 howned, ?_⟩, fun i hi => ?_⟩
    · show (World.pack (w₂.setPack e _) e).holdings = _
      rw [World.pack_setPack, if_pos rfl]
      rfl
    · show (World.pack (w₂.setPack e _) i).holdings = _
      have hi' : i ≠ e := hi
      rw [World.pack_setPack, if_neg hi', hpaid.pack, if_neg hi', h.pack]

/-- Buying an item never succeeds, and it changes nothing. -/
theorem atomic_purchaseItem : (ShopCall.purchaseItem e eventid baseid).Atomic env w := by
  refine (wp_atEvent_iff (S := fun _ => True) fun shop w₁ hargs h => iff_of_true ?_ trivial).2 fun _ _ => trivial
  have hrefuse : wp (purchaseItem env e none shop) (fun rc w' => rc = false ∧ Unchanged w w')
      (fun _ w' => Unchanged w w') w₁ := by
    rw [purchaseItem, wp_bind, wp_get, wp_ite]
    refine ⟨fun _ => ⟨rfl, h.unchanged⟩, fun _ => ?_⟩
    cases shop.items with
    | none => exact ⟨rfl, h.unchanged⟩
    | some items => exact h.unchanged
  rw [reported, wp_bind]
  refine wp_mono hrefuse ?_ fun _ _ h => h
  rintro rc w' ⟨rfl, hunchanged⟩
  exact hunchanged

/-- An entity that buys pays and gets the card. -/
theorem purchaseCard_of_buys {shop : Shop} (h : w.Buys env e baseid shop price) :
    purchaseCard env e baseid shop w =
      (addGold e (-price) >>= fun _ => discard (addCard env e baseid) >>= fun _ => pure true : Run Bool) w := by
  rw [purchaseCard, bind_of_ok (x := get) rfl]
  simp only [h.living, Bool.false_eq_true, if_false, h.sold, not_true, h.priced, not_lt.2 h.gold, not_le.2 h.room]

/-- An entity that does not buy is refused. -/
theorem purchaseCard_of_not_buys {shop : Shop} (h : ∀ price, ¬ w.Buys env e baseid shop price) :
    purchaseCard env e baseid shop w = .ok false w := by
  rw [purchaseCard, bind_of_ok (x := get) rfl]
  cases hpriced : (env.cardTable baseid).bind CardBase.priceGold with
  | none => split_ifs <;> rfl
  | some price =>
    simp only []
    split_ifs with hliving hsold hgold hroom
    · rfl
    · rfl
    · rfl
    · exact absurd ⟨by simpa using hliving, hsold, hpriced, not_lt.1 hgold, not_le.1 hroom⟩ (h price)
    · rfl

/-- An entity that levels up a card loses it and gets the better one. -/
theorem levelupCard_of_levels {args : Price} (h : w.LevelsCard env e c args price baseid) :
    levelupCard env e c args w =
      (removeCard e c >>= fun _ => discard (addCard env e baseid) >>= fun _ => pure true : Run Bool) w := by
  have hrow : ¬ (env.cardTable baseid).isNone = true := by
    rw [← Option.not_isSome, h.row]
    decide
  rw [levelupCard, bind_of_ok (x := get) rfl]
  simp only [h.living, Bool.false_eq_true, if_false, h.priced, h.owned, not_true, not_lt.2 h.gold, h.levelup, h.notTop,
    hrow]

theorem levelupCard_of_not_levels {args : Price} (h : ∀ price baseid, ¬ w.LevelsCard env e c args price baseid) :
    levelupCard env e c args w = .ok false w := by
  rw [levelupCard, bind_of_ok (x := get) rfl]
  cases hpriced : args.priceGold with
  | none => split_ifs <;> rfl
  | some price =>
    cases hlevelup : (w.cardAt c).base.levelupBaseid with
    | none =>
      simp only []
      split_ifs <;> rfl
    | some baseid =>
      simp only []
      split_ifs with hliving howned hgold htop hrow
      · rfl
      · rfl
      · rfl
      · rfl
      · exact absurd ⟨by simpa using hliving, hpriced, howned, not_lt.1 hgold, hlevelup, htop,
          Option.isSome_iff_ne_none.2 fun hnone => hrow (by rw [hnone]; rfl)⟩ (h price baseid)
      · rfl

/-- An entity that levels up a puppet pays, and then the request raises. -/
theorem levelupPuppet_of_levels {args : Price} (h : w.LevelsPuppet env e target args price baseid) :
    levelupPuppet env e target args w = (addGold e (-price) >>= fun _ => throw .callNil : Run Bool) w := by
  have hrow : ¬ (env.entityTable baseid).isNone = true := by
    rw [← Option.not_isSome, h.row]
    decide
  rw [levelupPuppet, bind_of_ok (x := get) rfl]
  simp only [h.living, Bool.false_eq_true, if_false, h.priced, h.owned, not_true, not_lt.2 h.gold, h.levelup, h.notTop,
    hrow]

theorem levelupPuppet_of_not_levels {args : Price}
    (h : ∀ price baseid, ¬ w.LevelsPuppet env e target args price baseid) :
    levelupPuppet env e target args w = .ok false w := by
  rw [levelupPuppet, bind_of_ok (x := get) rfl]
  cases hpriced : args.priceGold with
  | none => split_ifs <;> rfl
  | some price =>
    cases hlevelup : (w.entityAt target).base.levelupBaseid with
    | none =>
      simp only []
      split_ifs <;> rfl
    | some baseid =>
      simp only []
      split_ifs with hliving howned htop hrow hgold
      · rfl
      · rfl
      · rfl
      · rfl
      · exact absurd ⟨by simpa using hliving, hpriced, howned, hlevelup, htop,
          Option.isSome_iff_ne_none.2 fun hnone => hrow (by rw [hnone]; rfl), not_lt.1 hgold⟩ (h price baseid)
      · rfl

/-- Buying a card is an exchange or nothing, unless the card or the report of the shop fails. -/
theorem wp_purchaseCard_iff (h : Beside w w₁) {shop : Shop} :
    wp (reported env (purchaseCard env e baseid) shop) ((ShopCall.purchaseCard e eventid baseid).Done env w)
        (fun _ w' => Unchanged w w') w₁ ↔
      ∀ price, w.Buys env e baseid shop price → 0 ≤ (w.pack e).gold →
        (w.Makes env baseid (w.pack e).cards → shop.Listed env) ∧
        (¬ w.Makes env baseid (w.pack e).cards → price = 0) := by
  rw [reported, wp_bind]
  by_cases hbuys : ∃ price, w.Buys env e baseid shop price
  · obtain ⟨price, hbuys⟩ := hbuys
    rw [wp_congr (purchaseCard_of_buys (h.buys.2 hbuys)), wp_bind]
    have hprice : price ≤ (w₁.pack e).gold := by rw [h.pack]; exact hbuys.gold
    have huniq : ∀ price', w.Buys env e baseid shop price' → price' = price := fun price' hbuys' =>
      Option.some.inj (hbuys'.priced.symm.trans hbuys.priced)
    by_cases hgold : 0 ≤ (w.pack e).gold
    · obtain ⟨_, w₂, hpay, hpaid⟩ := exists_ok_of_wp (wp_pay (Q := fun _ => Paid e price w₁)
        (E := fun _ _ => False) hprice
        (fun hpoor => by rw [h.pack] at hpoor; omega) fun _ w₂ hpaid => hpaid)
      have hpack : w₂.pack e = { w.pack e with gold := (w.pack e).gold - price } := by
        rw [hpaid.pack, if_pos rfl, h.pack]
      have hothers : ∀ i ≠ e, w₂.pack i = w.pack i := fun i hi => by rw [hpaid.pack, if_neg hi, h.pack]
      have hmakes_iff : w₂.Makes env baseid (w₂.pack e).cards ↔ w.Makes env baseid (w.pack e).cards := by
        rw [World.Makes, World.Makes, hpaid.nextCard, h.nextCard, hpack]
      rw [wp_ok hpay, wp_bind, show discard (addCard env e baseid) = (fun _ => ()) <$> addCard env e baseid from rfl,
        wp_map]
      by_cases hmakes : w.Makes env baseid (w.pack e).cards
      · obtain ⟨c, w₃, hadd, rfl, hpack₃, hitems, hbaseid⟩ := exists_ok_of_wp (wp_addCard_of_makes (hmakes_iff.2 hmakes))
        rw [wp_ok hadd, wp_pure, if_pos rfl, wp_bind]
        rw [hpack] at hpack₃
        have howner : (w₃.pack e).holdings = { (w.pack e).holdings with
            gold := (w.pack e).gold - price, cards := (w.pack e).cards ++ [w₂.nextCard] } := by
          rw [hpack₃, if_pos rfl]
          rfl
        by_cases hlisted : shop.Listed env
        · refine iff_of_true (wp_dispatchShop (fun _ w₄ h₄ => ?_) fun hnot => absurd hlisted hnot) fun price' _ _ =>
            ⟨fun _ => hlisted, absurd hmakes⟩
          refine ⟨⟨price, w₂.nextCard, hbuys.priced, ?_, ?_, ?_⟩, fun i hi => ?_⟩
          · rw [hpaid.nextCard, h.nextCard]
            exact hmakes.2
          · rw [h₄.cardAt]
            exact hbaseid
          · rw [h₄.pack]
            exact howner
          · have hi' : i ≠ e := hi
            rw [h₄.pack, hpack₃, if_neg hi', hothers i hi']
        · refine iff_of_false (fun hwp => ?_) fun hsafe => hlisted ((hsafe price hbuys hgold).1 hmakes)
          obtain ⟨f, w₄, hdispatch, h₄⟩ := exists_error_of_wp (wp_dispatchShop (w := w₃) (Q := fun _ _ => False)
            (E := fun _ => Beside w₃) (fun hyes => absurd hyes hlisted) fun _ _ _ h₄ => h₄)
          rw [wp_error hdispatch] at hwp
          have hcards := congrArg Holdings.cards (hwp.holdings e)
          rw [h₄.pack, howner] at hcards
          have hself : (w.pack e).cards ++ [w₂.nextCard] = (w.pack e).cards := hcards
          simp at hself
      · obtain ⟨f, w₃, hadd, hentity, hitems⟩ := exists_error_of_wp (wp_addCard_of_not_makes fun h => hmakes (hmakes_iff.1 h))
        rw [wp_error hadd]
        have hpack₃ : ∀ i, w₃.pack i = w₂.pack i := fun i => by rw [World.pack, hentity, World.pack]
        refine ⟨fun hun price' hbuys' _ => ⟨fun hmakes' => absurd hmakes' hmakes, fun _ => ?_⟩, fun hsafe => ⟨fun i => ?_, ?_⟩⟩
        · have hgolds := congrArg Holdings.gold (hun.holdings e)
          rw [hpack₃, hpack] at hgolds
          have heq : (w.pack e).gold - price = (w.pack e).gold := hgolds
          rw [huniq price' hbuys']
          omega
        · have hzero : price = 0 := (hsafe price hbuys hgold).2 hmakes
          rw [hpack₃]
          by_cases hi : i = e
          · rw [hi, hpack, hzero, sub_zero]
          · rw [hothers i hi]
        · rw [hitems, hpaid.itemAt, h.itemAt]
    · refine iff_of_true (wp_pay hprice (fun _ => h.unchanged) fun hrich => ?_) fun _ _ hrich => absurd hrich hgold
      rw [h.pack] at hrich
      exact absurd hrich hgold
  · have hrefused : ∀ price, ¬ w₁.Buys env e baseid shop price := fun price hb => hbuys ⟨price, h.buys.1 hb⟩
    rw [wp_ok (purchaseCard_of_not_buys hrefused)]
    exact iff_of_true h.unchanged fun price hb => absurd ⟨price, hb⟩ hbuys

/-- Levelling up a card never takes the price. -/
theorem wp_levelupCard_iff (h : Beside w w₁) {args : Price}
    (hargs : w.eventArgs e eventid .shopLevelupCard Content.levelupCard = some args) :
    wp (levelupCard env e c args) ((ShopCall.levelupCard e eventid c).Done env w) (fun _ w' => Unchanged w w') w₁ ↔
      ∀ price baseid, w.LevelsCard env e c args price baseid →
        w.Makes env baseid ((w.pack e).cards.erase c) ∧ price = 0 := by
  by_cases hlevels : ∃ price baseid, w.LevelsCard env e c args price baseid
  · obtain ⟨price, baseid, hlevels⟩ := hlevels
    rw [wp_congr (levelupCard_of_levels (h.levelsCard.2 hlevels)), wp_bind]
    have hremove : wp (removeCard e c) (fun _ w₂ => (∀ i, w₂.pack i = if i = e then
        { w.pack e with cards := (w.pack e).cards.erase c } else w.pack i) ∧ w₂.nextCard = w.nextCard ∧
        w₂.itemAt = w.itemAt) (fun _ _ => False) w₁ := by
      rw [removeCard, wp_bind, wp_getPack, wp_bind, wp_assertion, h.pack]
      refine ⟨fun _ => ?_, fun hnot => hnot hlevels.owned⟩
      rw [wp_bind, wp_modifyPack, wp_notify, h.pack]
      refine ⟨fun i => ?_, h.nextCard, h.itemAt⟩
      show (w₁.setPack e _).pack i = _
      rw [World.pack_setPack, h.pack]
    obtain ⟨_, w₂, hremoved, hpack, hnext, hitem⟩ := exists_ok_of_wp hremove
    rw [wp_ok hremoved, wp_bind, show discard (addCard env e baseid) = (fun _ => ()) <$> addCard env e baseid from rfl,
      wp_map]
    have hmakes_iff : w₂.Makes env baseid (w₂.pack e).cards ↔ w.Makes env baseid ((w.pack e).cards.erase c) := by
      rw [World.Makes, World.Makes, hnext, hpack, if_pos rfl]
    by_cases hmakes : w.Makes env baseid ((w.pack e).cards.erase c)
    · obtain ⟨new, w₃, hadd, rfl, hpack₃, hitems, hbaseid⟩ := exists_ok_of_wp (wp_addCard_of_makes (hmakes_iff.2 hmakes))
      rw [wp_ok hadd, wp_pure]
      have howner : (w₃.pack e).holdings = { (w.pack e).holdings with
          cards := (w.pack e).cards.erase c ++ [w₂.nextCard] } := by
        rw [hpack₃, if_pos rfl, hpack, if_pos rfl]
        rfl
      constructor
      · rintro ⟨⟨args', price', _, _, hargs', hprice', _, _, _, _, hholdings⟩, _⟩ price'' baseid'' hlevels''
        have hgold : (w.pack e).gold = (w.pack e).gold - price' := (congrArg Holdings.gold (howner.symm.trans hholdings) :)
        have hargs_eq : args' = args := Option.some.inj (hargs'.symm.trans hargs)
        rw [hargs_eq] at hprice'
        have hprice_eq : price'' = price' := Option.some.inj (hlevels''.priced.symm.trans hprice')
        have hbaseid_eq : baseid'' = baseid := Option.some.inj (hlevels''.levelup.symm.trans hlevels.levelup)
        rw [hbaseid_eq]
        exact ⟨hmakes, by omega⟩
      · intro hsafe
        refine ⟨⟨args, price, baseid, w₂.nextCard, hargs, hlevels.priced, hlevels.owned, hlevels.levelup, ?_, hbaseid,
          ?_⟩, fun i hi => ?_⟩
        · rw [hnext]
          exact hmakes.2
        · rw [howner, (hsafe price baseid hlevels).2, sub_zero]
          rfl
        · have hi' : i ≠ e := hi
          rw [hpack₃, if_neg hi', hpack, if_neg hi']
    · obtain ⟨f, w₃, hadd, hentity, -⟩ := exists_error_of_wp (wp_addCard_of_not_makes fun h => hmakes (hmakes_iff.1 h))
      rw [wp_error hadd]
      refine iff_of_false (fun hun => ?_) fun hsafe => hmakes (hsafe price baseid hlevels).1
      have hcards : (w₂.pack e).cards.length = (w.pack e).cards.length := by
        have hcards := congrArg (fun o : Holdings => o.cards.length) (hun.holdings e)
        rw [World.pack, hentity] at hcards
        exact hcards
      rw [hpack, if_pos rfl] at hcards
      have hlength := List.length_erase_of_mem hlevels.owned
      have hpos := List.length_pos_of_mem hlevels.owned
      exact absurd (hcards.symm.trans hlength) (by omega)
  · have hrefused : ∀ price baseid, ¬ w₁.LevelsCard env e c args price baseid := fun price baseid hl =>
      hlevels ⟨price, baseid, h.levelsCard.1 hl⟩
    rw [wp_ok (levelupCard_of_not_levels hrefused)]
    exact iff_of_true h.unchanged fun price baseid hl => absurd ⟨price, baseid, hl⟩ hlevels

/-- Levelling up a puppet takes the price and raises. -/
theorem wp_levelupPuppet_iff (h : Beside w w₁) {args : Price} :
    wp (levelupPuppet env e target args) ((ShopCall.levelupPuppet e eventid target).Done env w)
        (fun _ w' => Unchanged w w') w₁ ↔
      ∀ price baseid, w.LevelsPuppet env e target args price baseid → 0 ≤ (w.pack e).gold → price = 0 := by
  by_cases hlevels : ∃ price baseid, w.LevelsPuppet env e target args price baseid
  · obtain ⟨price, baseid, hlevels⟩ := hlevels
    rw [wp_congr (levelupPuppet_of_levels (h.levelsPuppet.2 hlevels)), wp_bind]
    have hprice : price ≤ (w₁.pack e).gold := by rw [h.pack]; exact hlevels.gold
    by_cases hgold : 0 ≤ (w.pack e).gold
    · obtain ⟨_, w₂, hpay, hpaid⟩ := exists_ok_of_wp (wp_pay (Q := fun _ => Paid e price w₁)
        (E := fun _ _ => False) hprice (fun hpoor => by rw [h.pack] at hpoor; omega) fun _ w₂ hpaid => hpaid)
      rw [wp_ok hpay, wp_throw]
      refine ⟨fun hun price' baseid' hlevels' _ => ?_, fun hsafe => ⟨fun i => ?_, ?_⟩⟩
      · have hgolds := congrArg Holdings.gold (hun.holdings e)
        rw [hpaid.pack, if_pos rfl, h.pack] at hgolds
        have heq : (w.pack e).gold - price = (w.pack e).gold := hgolds
        have huniq : price' = price := Option.some.inj (hlevels'.priced.symm.trans hlevels.priced)
        omega
      · have hzero : price = 0 := hsafe price baseid hlevels hgold
        rw [hpaid.pack]
        split
        · rename_i hi
          rw [hi, h.pack, hzero, sub_zero]
        · rw [h.pack]
      · rw [hpaid.itemAt, h.itemAt]
    · refine iff_of_true (wp_pay hprice (fun _ => h.unchanged) fun hrich => ?_) fun _ _ _ hrich => absurd hrich hgold
      rw [h.pack] at hrich
      exact absurd hrich hgold
  · have hrefused : ∀ price baseid, ¬ w₁.LevelsPuppet env e target args price baseid := fun price baseid hl =>
      hlevels ⟨price, baseid, h.levelsPuppet.1 hl⟩
    rw [wp_ok (levelupPuppet_of_not_levels hrefused)]
    exact iff_of_true h.unchanged fun price baseid hl => absurd ⟨price, baseid, hl⟩ hlevels

end Requests

/-- **A request at a shop is an exchange or nothing exactly if it is safe**: destroying a card and buying
an item always are; buying a card is if the card can be made and all that the shop sells has a row, or if
it costs nothing and cannot be made; levelling up a card is if it costs nothing and the better card can be
made; levelling up a puppet is if it costs nothing. -/
theorem shop_atomic_iff (env : Env) (call : ShopCall) (w : World) : call.Atomic env w ↔ call.Safe env w := by
  cases call with
  | purchaseCard e eventid baseid =>
    refine (wp_atEvent_iff fun shop w₁ _ h => wp_purchaseCard_iff h).trans ?_
    exact forall_congr' fun shop => forall_comm
  | purchaseItem e eventid baseid => exact iff_of_true atomic_purchaseItem trivial
  | destroyCard e eventid c => exact iff_of_true atomic_destroyCard trivial
  | levelupCard e eventid c =>
    refine (wp_atEvent_iff fun args w₁ hargs h => wp_levelupCard_iff h hargs).trans ?_
    exact forall_congr' fun args => ⟨fun h price baseid ha => h ha price baseid, fun h ha price baseid => h price baseid ha⟩
  | levelupPuppet e eventid target =>
    refine (wp_atEvent_iff fun args w₁ _ h => wp_levelupPuppet_iff h).trans ?_
    exact forall_congr' fun args => ⟨fun h price baseid ha => h ha price baseid, fun h ha price baseid => h price baseid ha⟩

/-- A shop that levels up cards for 50, visited by an entity with 100 in gold and a card. -/
def levelupShop : World where
  entityAt _ := { pack := { gold := 100, cards := [5] } }
  cardAt _ := { baseid := 1, base := { levelupBaseid := some 2 } }
  nextCard := 6
  scene := some { members := [1], triggerEvent := some {
    id := 3, category := .shopLevelupCard, content := some { levelupCard := some { priceGold := some 50 } } } }

/-- The card is levelled up and nothing is paid. -/
theorem levelup_card_is_free :
    wp (sceneLevelupCard plainEnv 1 3 5) (fun rc w' => rc = true ∧ (w'.pack 1).gold = 100 ∧ (w'.pack 1).cards = [6])
      (fun _ _ => False) levelupShop ∧ ¬ (ShopCall.levelupCard 1 3 5).Atomic plainEnv levelupShop := by
  have hrun : wp (sceneLevelupCard plainEnv 1 3 5)
      (fun rc w' => rc = true ∧ (w'.pack 1).gold = 100 ∧ (w'.pack 1).cards = [6]) (fun _ _ => False) levelupShop := by
    decide +kernel
  refine ⟨hrun, fun hatomic => ?_⟩
  obtain ⟨rc, w', hok, rfl, hgold, -⟩ := exists_ok_of_wp hrun
  have hdone : (ShopCall.levelupCard 1 3 5).Done plainEnv levelupShop true w' := (wp_ok hok).1 hatomic
  obtain ⟨⟨args, price, baseid, new, hargs, hprice, -, -, -, -, hholdings⟩, -⟩ := hdone
  cases hargs
  cases hprice
  have hpaid : (w'.pack 1).gold = 100 - 50 := congrArg Holdings.gold hholdings
  omega

end Slam.Game
