import Slam.Game.Shop
import Slam.Lib.Machine

/-!
# What a shop lists and what it sells

A shop sends a member the list of its cards and items with their prices. `Scene:take_event_content` makes the list,
and `Entity:purchase_card` looks the price up for itself. `purchases_agree_iff` says, for every run of purchases of
any members, when a purchase agrees with the list that was sent just before.

The list shows a card that the pack has already at the price -1, but the card is sold all the same. An item never is:
`Scene:purchase_item` does not pass on what was asked for. What a purchase needs is one structure, `World.Sells`, and
the price it takes is compared with the list afterwards.
-/

namespace Slam.Game

open Raising

variable {env : Env} {w w' : World} {e eventid baseid p : ℤ} {shop : Shop}

/-! ### The list -/

/-- The list of a shop: base ids with their prices in gold, as far as the rows have any. -/
structure ShopList where
  cards : Option (List (ℤ × Option ℤ))
  items : Option (List (ℤ × Option ℤ))

/-- A loop of `Scene:take_event_content` at a shop; `price` is nothing where the row is missing, which raises. -/
def listPrices (price : ℤ → Option (Option ℤ)) : List ℤ → Option (List (ℤ × Option ℤ))
  | [] => some []
  | baseid :: l => (price baseid).bind fun p => (listPrices price l).map fun t => (baseid, p) :: t

/-- The list of the cards or of the items, which the shop may do without. -/
def listShelf (price : ℤ → Option (Option ℤ)) : Option (List ℤ) → Option (Option (List (ℤ × Option ℤ)))
  | none => some none
  | some l => (listPrices price l).map some

/-- `Pack:card_find`. -/
def World.cardFind (w : World) (e baseid : ℤ) : Option ℤ :=
  (w.pack e).cards.find? fun c => (w.cardAt c).baseid = baseid

/-- The price of a card in the list for a member, which is -1 if its pack has a card of this kind. -/
def World.cardPrice (w : World) (env : Env) (e baseid : ℤ) : Option (Option ℤ) :=
  (env.cardTable baseid).map fun base => if (w.cardFind e baseid).isSome then some (-1) else base.priceGold

/-- The price of an item in the list. -/
def itemPrice (env : Env) (baseid : ℤ) : Option (Option ℤ) := (env.itemTable baseid).map ItemBase.priceGold

/-- `Scene:take_event_content` at a shop, nothing if it raises. -/
def World.takeShopContent (w : World) (env : Env) (e : ℤ) (shop : Shop) : Option ShopList :=
  (listShelf (w.cardPrice env e) shop.cards).bind fun cards =>
    (listShelf (itemPrice env) shop.items).map fun items => { cards, items }

/-- The list that is sent to a member at an event that is open to it. -/
def World.sentList (w : World) (env : Env) (e eventid : ℤ) : Option ShopList :=
  (w.eventArgs e eventid .shopBuyCard Content.shop).bind fun shop => w.takeShopContent env e shop

theorem listPrices_eq_some {price : ℤ → Option (Option ℤ)} {l : List ℤ} {t : List (ℤ × Option ℤ)} :
    listPrices price l = some t ↔ (∀ b ∈ l, (price b).isSome) ∧ l.map (fun b => (b, (price b).join)) = t := by
  induction l generalizing t with
  | nil => simp [listPrices]
  | cons b l ih =>
    simp only [listPrices, Option.bind_eq_some_iff, Option.map_eq_some_iff, ih, List.forall_mem_cons, List.map_cons]
    constructor
    · rintro ⟨p, hp, t', ⟨hall, rfl⟩, rfl⟩
      rw [hp]
      exact ⟨⟨rfl, hall⟩, rfl⟩
    · rintro ⟨⟨hsome, hall⟩, rfl⟩
      obtain ⟨p, hp⟩ := Option.isSome_iff_exists.1 hsome
      rw [hp]
      exact ⟨p, rfl, _, ⟨hall, rfl⟩, rfl⟩

theorem listShelf_eq_some {price : ℤ → Option (Option ℤ)} {shelf : Option (List ℤ)}
    {t : Option (List (ℤ × Option ℤ))} : listShelf price shelf = some t ↔
      (∀ b ∈ shelf.getD [], (price b).isSome) ∧ shelf.map (List.map fun b => (b, (price b).join)) = t := by
  cases shelf with
  | none => simp [listShelf]
  | some l => 
    simp only [listShelf, Option.map_eq_some_iff, listPrices_eq_some, Option.getD_some, Option.map_some]
    constructor
    · rintro ⟨_, ⟨hall, rfl⟩, rfl⟩
      exact ⟨hall, rfl⟩
    · rintro ⟨hall, rfl⟩
      exact ⟨_, ⟨hall, rfl⟩, rfl⟩

/-- What is on a shelf at which price. -/
theorem mem_shelf {price : ℤ → Option (Option ℤ)} {shelf : Option (List ℤ)} :
    (baseid, some p) ∈ (shelf.map (List.map fun b => (b, (price b).join))).getD [] ↔
      baseid ∈ shelf.getD [] ∧ price baseid = some (some p) := by
  cases shelf with
  | none => simp
  | some l => simp [Option.join_eq_some_iff]

/-- The list is made if all that the shop sells has a row. -/
theorem World.takeShopContent_eq_some {t : ShopList} : w.takeShopContent env e shop = some t ↔
    shop.Listed env ∧ shop.cards.map (List.map fun b => (b, (w.cardPrice env e b).join)) = t.cards ∧
      shop.items.map (List.map fun b => (b, (itemPrice env b).join)) = t.items := by
  have hcard : ∀ b, (w.cardPrice env e b).isSome = (env.cardTable b).isSome := fun b => Option.isSome_map ..
  have hitem : ∀ b, (itemPrice env b).isSome = (env.itemTable b).isSome := fun b => Option.isSome_map ..
  simp only [World.takeShopContent, Option.bind_eq_some_iff, Option.map_eq_some_iff, listShelf_eq_some, hcard, hitem,
    Shop.Listed]
  constructor
  · rintro ⟨_, ⟨hcards, rfl⟩, _, ⟨hitems, rfl⟩, rfl⟩
    exact ⟨⟨hcards, hitems⟩, rfl, rfl⟩
  · rintro ⟨⟨hcards, hitems⟩, hc, hi⟩
    exact ⟨_, ⟨hcards, hc⟩, _, ⟨hitems, hi⟩, rfl⟩

/-! ### The purchases -/

/-- A purchase of a member at a shop. -/
inductive Purchase
  | card (e eventid baseid : ℤ)
  | item (e eventid baseid : ℤ)

namespace Purchase

def run (env : Env) : Purchase → Run Bool
  | card e eventid baseid => scenePurchaseCard env e eventid baseid
  | item e eventid baseid => scenePurchaseItem env e eventid baseid

/-- The member that buys. -/
def entity : Purchase → ℤ
  | card e _ _ | item e _ _ => e

/-- The list that is sent to the member shows what it asks for at this price. -/
def Shown (env : Env) (w : World) : Purchase → ℤ → Prop
  | card e eventid baseid, p => ∃ t, w.sentList env e eventid = some t ∧ (baseid, some p) ∈ t.cards.getD []
  | item e eventid baseid, p => ∃ t, w.sentList env e eventid = some t ∧ (baseid, some p) ∈ t.items.getD []

/-- The pack has room for it. -/
def Room (w : World) : Purchase → Prop
  | card e _ _ => (w.pack e).cards.length < (w.entityAt e).base.maxCards
  | item e _ _ => (w.pack e).items.length < (w.entityAt e).base.maxPackSlots

/-- The list shows it at a price that is not negative and not above the gold of the member, and the pack has
room. -/
def Offered (env : Env) (w : World) (x : Purchase) : Prop :=
  ∃ p, x.Shown env w p ∧ 0 ≤ p ∧ p ≤ (w.pack x.entity).gold ∧ x.Room w

/-- The purchase succeeds exactly if the list offers it, and takes the listed price. -/
structure Agrees (env : Env) (w : World) (x : Purchase) : Prop where
  bought_iff : (∃ w', x.run env w = .ok true w') ↔ x.Offered env w
  charged : ∀ w', x.run env w = .ok true w' →
    ∃ p, x.Shown env w p ∧ (w'.pack x.entity).gold = (w.pack x.entity).gold - p

/-- What a purchase needs to agree with the list. A card that the shop sells at a price within the gold, with room
for it, is one that the pack has none of and whose price is not negative exactly if the member can complete the
purchase: it lives, its gold is not negative and the card can be made. An item is not offered. -/
def Fair (env : Env) (w : World) : Purchase → Prop
  | card e eventid baseid => ∀ shop price,
      w.eventArgs e eventid .shopBuyCard Content.shop = some shop → shop.Listed env → baseid ∈ shop.cards.getD [] →
      (env.cardTable baseid).bind CardBase.priceGold = some price → price ≤ (w.pack e).gold →
      (w.pack e).cards.length < (w.entityAt e).base.maxCards →
      ((w.entityAt e).death = false ∧ 0 ≤ (w.pack e).gold ∧ w.Makes env baseid (w.pack e).cards ↔
        w.cardFind e baseid = none ∧ 0 ≤ price)
  | item e eventid baseid => ∀ shop price,
      w.eventArgs e eventid .shopBuyCard Content.shop = some shop → shop.Listed env → baseid ∈ shop.items.getD [] →
      (env.itemTable baseid).bind ItemBase.priceGold = some price → 0 ≤ price → price ≤ (w.pack e).gold →
      (w.entityAt e).base.maxPackSlots ≤ (w.pack e).items.length

end Purchase

/-- The purchases of any members, one after the other; one that raises leaves the world as it is at that point. -/
def purchases (env : Env) : Machine World Purchase where
  step w x := some (endState (x.run env) w)

/-! ### What a purchase does -/

/-- A card is sold to a member. -/
structure World.Sells (w : World) (env : Env) (e eventid baseid : ℤ) (shop : Shop) (price : ℤ) : Prop where
  args : w.eventArgs e eventid .shopBuyCard Content.shop = some shop
  buys : w.Buys env e baseid shop price
  gold : 0 ≤ (w.pack e).gold
  makes : w.Makes env baseid (w.pack e).cards
  listed : shop.Listed env

/-- The report of what happened to a card that was asked for. -/
def World.SoldFor (w : World) (env : Env) (e eventid baseid : ℤ) : Bool → World → Prop
  | true, w' => ∃ shop price, w.Sells env e eventid baseid shop price ∧ (w'.pack e).gold = (w.pack e).gold - price
  | false, _ => ∀ shop price, ¬ w.Sells env e eventid baseid shop price

/-- A card is bought exactly if it is sold. -/
theorem wp_scenePurchaseCard : wp (scenePurchaseCard env e eventid baseid) (w.SoldFor env e eventid baseid)
    (fun _ _ => ∀ shop price, ¬ w.Sells env e eventid baseid shop price) w := by
  rw [scenePurchaseCard, atEvent, wp_bind]
  refine wp_touchEvent (fun hnone => ?_) fun shop hargs => ?_
  · have hnot : ∀ shop price, ¬ w.Sells env e eventid baseid shop price := fun shop price h => by
      have hargs := h.args
      rw [hnone] at hargs
      cases hargs
    exact ⟨hnot, hnot⟩
  have h : Beside w w.touched := ⟨rfl, rfl, rfl, rfl⟩
  have hshop : ∀ {shop' price}, w.Sells env e eventid baseid shop' price → shop' = shop := fun hsells =>
    Option.some.inj (hsells.args.symm.trans hargs)
  show wp (reported env (purchaseCard env e baseid) shop) _ _ w.touched
  rw [reported, wp_bind]
  by_cases hbuys : ∃ price, w.Buys env e baseid shop price
  · obtain ⟨price, hbuys⟩ := hbuys
    rw [wp_congr (purchaseCard_of_buys (h.buys.2 hbuys)), wp_bind]
    refine wp_pay (by rw [h.pack]; exact hbuys.gold) (fun hpoor _ _ hsells => ?_) fun hgold w₂ hpaid => ?_
    · rw [h.pack] at hpoor
      exact absurd hsells.gold (not_le.2 hpoor)
    rw [h.pack] at hgold
    have hpack : w₂.pack e = { w.pack e with gold := (w.pack e).gold - price } := by
      rw [hpaid.pack, if_pos rfl, h.pack]
    have hmakes_iff : w₂.Makes env baseid (w₂.pack e).cards ↔ w.Makes env baseid (w.pack e).cards := by
      rw [World.Makes, World.Makes, hpaid.nextCard, h.nextCard, hpack]
    rw [wp_bind, show discard (addCard env e baseid) = (fun _ => ()) <$> addCard env e baseid from rfl, wp_map]
    by_cases hmakes : w.Makes env baseid (w.pack e).cards
    · refine wp_mono (wp_addCard_of_makes (hmakes_iff.2 hmakes)) ?_ fun _ _ hf => hf.elim
      rintro c w₃ ⟨-, hpack₃, -, -⟩
      rw [wp_pure, if_pos rfl, wp_bind]
      refine wp_dispatchShop (fun hlisted w₄ h₄ => ?_) fun hunlisted _ _ _ _ _ hsells => ?_
      · refine ⟨shop, price, ⟨hargs, hbuys, hgold, hmakes, hlisted⟩, ?_⟩
        rw [h₄.pack, hpack₃, if_pos rfl, hpack]
      · have hlisted := hsells.listed
        rw [hshop hsells] at hlisted
        exact hunlisted hlisted
    · refine wp_mono (wp_addCard_of_not_makes fun h => hmakes (hmakes_iff.1 h)) (fun _ _ hf => hf.elim) ?_
      intro _ _ _ _ _ hsells
      exact hmakes hsells.makes
  · have hrefused : ∀ price, ¬ w.touched.Buys env e baseid shop price := fun price hb => hbuys ⟨price, h.buys.1 hb⟩
    rw [wp_ok (purchaseCard_of_not_buys hrefused)]
    intro shop' price hsells
    have hb := hsells.buys
    rw [hshop hsells] at hb
    exact hbuys ⟨price, hb⟩

/-- An item is never bought. -/
theorem wp_scenePurchaseItem (baseid : ℤ) : wp (scenePurchaseItem env e eventid baseid) (fun rc _ => rc = false)
    (fun _ _ => True) w := by
  rw [scenePurchaseItem, atEvent, wp_bind]
  refine wp_touchEvent (fun _ => ⟨rfl, trivial⟩) fun shop _ => ?_
  show wp (reported env (purchaseItem env e none) shop) _ _ w.touched
  rw [reported, wp_bind, purchaseItem, wp_bind, wp_get, wp_ite]
  refine ⟨fun _ => rfl, fun _ => ?_⟩
  cases shop.items with
  | none => rfl
  | some items => trivial

theorem exists_scenePurchaseCard_iff : (∃ w', scenePurchaseCard env e eventid baseid w = .ok true w') ↔
    ∃ shop price, w.Sells env e eventid baseid shop price := by
  have hwp : wp (scenePurchaseCard env e eventid baseid) (w.SoldFor env e eventid baseid)
      (fun _ _ => ∀ shop price, ¬ w.Sells env e eventid baseid shop price) w := wp_scenePurchaseCard
  constructor
  · rintro ⟨w', hok⟩
    obtain ⟨shop, price, hsells, -⟩ := (wp_ok hok).1 hwp
    exact ⟨shop, price, hsells⟩
  · rintro ⟨shop, price, hsells⟩
    cases hrun : scenePurchaseCard env e eventid baseid w with
    | ok rc w' =>
      have hsold := (wp_ok hrun).1 hwp
      cases rc with
      | true => exact ⟨w', rfl⟩
      | false => exact absurd hsells (hsold shop price)
    | error f w' => exact absurd hsells ((wp_error hrun).1 hwp shop price)

theorem scenePurchaseItem_ne_true (baseid : ℤ) : scenePurchaseItem env e eventid baseid w ≠ .ok true w' := by
  intro hok
  have hfalse := (wp_ok hok).1 (wp_scenePurchaseItem baseid)
  cases hfalse

/-! ### The agreement -/

namespace Purchase

theorem shown_card : (card e eventid baseid).Shown env w p ↔
    ∃ shop, w.eventArgs e eventid .shopBuyCard Content.shop = some shop ∧ shop.Listed env ∧
      baseid ∈ shop.cards.getD [] ∧ w.cardPrice env e baseid = some (some p) := by
  simp only [Shown, World.sentList, Option.bind_eq_some_iff]
  constructor
  · rintro ⟨t, ⟨shop, hargs, htake⟩, hmem⟩
    obtain ⟨hlisted, hcards, -⟩ := World.takeShopContent_eq_some.1 htake
    rw [← hcards, mem_shelf] at hmem
    exact ⟨shop, hargs, hlisted, hmem⟩
  · rintro ⟨shop, hargs, hlisted, hmem⟩
    exact ⟨⟨_, _⟩, ⟨shop, hargs, World.takeShopContent_eq_some.2 ⟨hlisted, rfl, rfl⟩⟩, mem_shelf.2 hmem⟩

theorem shown_item : (item e eventid baseid).Shown env w p ↔
    ∃ shop, w.eventArgs e eventid .shopBuyCard Content.shop = some shop ∧ shop.Listed env ∧
      baseid ∈ shop.items.getD [] ∧ itemPrice env baseid = some (some p) := by
  simp only [Shown, World.sentList, Option.bind_eq_some_iff]
  constructor
  · rintro ⟨t, ⟨shop, hargs, htake⟩, hmem⟩
    obtain ⟨hlisted, -, hitems⟩ := World.takeShopContent_eq_some.1 htake
    rw [← hitems, mem_shelf] at hmem
    exact ⟨shop, hargs, hlisted, hmem⟩
  · rintro ⟨shop, hargs, hlisted, hmem⟩
    exact ⟨⟨_, _⟩, ⟨shop, hargs, World.takeShopContent_eq_some.2 ⟨hlisted, rfl, rfl⟩⟩, mem_shelf.2 hmem⟩

/-- The listed price of a card is not negative exactly if it is the one of the row, this is not negative and the pack
has no such card. -/
theorem cardPrice_eq_some (hp : 0 ≤ p) : w.cardPrice env e baseid = some (some p) ↔
    w.cardFind e baseid = none ∧ (env.cardTable baseid).bind CardBase.priceGold = some p := by
  rw [World.cardPrice]
  cases env.cardTable baseid with
  | none => simp
  | some base =>
    cases w.cardFind e baseid with
    | none => simp
    | some c =>
      simp only [Option.map_some, Option.isSome_some, if_true, Option.some.injEq, reduceCtorEq, false_and, iff_false]
      omega

theorem card_agrees_iff : (card e eventid baseid).Agrees env w ↔ (card e eventid baseid).Fair env w := by
  have hbought : (∃ w', (card e eventid baseid).run env w = .ok true w') ↔
      ∃ shop price, w.Sells env e eventid baseid shop price := exists_scenePurchaseCard_iff
  constructor
  · rintro ⟨hiff, -⟩ shop price hargs hlisted hsold hpriced hgold hroom
    rw [hbought] at hiff
    constructor
    · rintro ⟨hliving, hrich, hmakes⟩
      have hsells : w.Sells env e eventid baseid shop price :=
        ⟨hargs, ⟨hliving, hsold, hpriced, hgold, hroom⟩, hrich, hmakes, hlisted⟩
      obtain ⟨p, hshown, hp, -, -⟩ := hiff.1 ⟨shop, price, hsells⟩
      obtain ⟨-, -, -, -, hprice⟩ := shown_card.1 hshown
      obtain ⟨hnone, hrow⟩ := (cardPrice_eq_some hp).1 hprice
      rw [hpriced, Option.some.injEq] at hrow
      exact ⟨hnone, hrow ▸ hp⟩
    · rintro ⟨hnone, hp⟩
      have hshown : (card e eventid baseid).Shown env w price :=
        shown_card.2 ⟨shop, hargs, hlisted, hsold, (cardPrice_eq_some hp).2 ⟨hnone, hpriced⟩⟩
      obtain ⟨shop', price', hsells⟩ := hiff.2 ⟨price, hshown, hp, hgold, hroom⟩
      exact ⟨hsells.buys.living, hsells.gold, hsells.makes⟩
  · intro hfair
    -- What is sold is listed at the price of its row.
    have hshown : ∀ shop price, w.Sells env e eventid baseid shop price →
        0 ≤ price ∧ (card e eventid baseid).Shown env w price := fun shop price h => by
      obtain ⟨hnone, hp⟩ := (hfair shop price h.args h.listed h.buys.sold h.buys.priced h.buys.gold h.buys.room).1
        ⟨h.buys.living, h.gold, h.makes⟩
      exact ⟨hp, shown_card.2 ⟨shop, h.args, h.listed, h.buys.sold, (cardPrice_eq_some hp).2 ⟨hnone, h.buys.priced⟩⟩⟩
    refine ⟨hbought.trans ⟨?_, ?_⟩, fun w' hok => ?_⟩
    · rintro ⟨shop, price, hsells⟩
      obtain ⟨hp, hlist⟩ := hshown shop price hsells
      exact ⟨price, hlist, hp, hsells.buys.gold, hsells.buys.room⟩
    · rintro ⟨p, hlist, hp, hgold, hroom⟩
      obtain ⟨shop, hargs, hlisted, hsold, hprice⟩ := shown_card.1 hlist
      obtain ⟨hnone, hpriced⟩ := (cardPrice_eq_some hp).1 hprice
      obtain ⟨hliving, hrich, hmakes⟩ := (hfair shop p hargs hlisted hsold hpriced hgold hroom).2 ⟨hnone, hp⟩
      exact ⟨shop, p, hargs, ⟨hliving, hsold, hpriced, hgold, hroom⟩, hrich, hmakes, hlisted⟩
    · obtain ⟨shop, price, hsells, hcharged⟩ := (wp_ok hok).1 wp_scenePurchaseCard
      exact ⟨price, (hshown shop price hsells).2, hcharged⟩

theorem item_agrees_iff : (item e eventid baseid).Agrees env w ↔ (item e eventid baseid).Fair env w := by
  have hnever : ∀ w', (item e eventid baseid).run env w ≠ .ok true w' := fun w' =>
    scenePurchaseItem_ne_true baseid
  constructor
  · rintro ⟨hiff, -⟩ shop price hargs hlisted hsold hpriced hp hgold
    by_contra hroom
    have hprice : itemPrice env baseid = some (some price) := by
      obtain ⟨base, hbase, hprice⟩ := Option.bind_eq_some_iff.1 hpriced
      rw [itemPrice, hbase, Option.map_some, hprice]
    obtain ⟨w', hok⟩ := hiff.2 ⟨price, shown_item.2 ⟨shop, hargs, hlisted, hsold, hprice⟩, hp, hgold, not_le.1 hroom⟩
    exact hnever w' hok
  · intro hfair
    refine ⟨⟨fun ⟨w', hok⟩ => absurd hok (hnever w'), ?_⟩, fun w' hok => absurd hok (hnever w')⟩
    rintro ⟨p, hlist, hp, hgold, hroom⟩
    obtain ⟨shop, hargs, hlisted, hsold, hprice⟩ := shown_item.1 hlist
    have hpriced : (env.itemTable baseid).bind ItemBase.priceGold = some p := by
      obtain ⟨base, hbase, hprice⟩ := Option.map_eq_some_iff.1 hprice
      rw [hbase, Option.bind_some, hprice]
    exact absurd (hfair shop p hargs hlisted hsold hpriced hp hgold) (not_le.2 hroom)

theorem agrees_iff_fair (x : Purchase) : x.Agrees env w ↔ x.Fair env w := by
  cases x with
  | card e eventid baseid => exact card_agrees_iff
  | item e eventid baseid => exact item_agrees_iff

end Purchase

/-- **A purchase agrees with the list exactly if it is fair**, in every run of purchases: each purchase succeeds exactly
if the list that the shop sends just before shows it at a price that is not negative and not above the gold, with room
in the pack, and takes this price, if and only if each purchase is fair in the world that it meets. -/
theorem purchases_agree_iff (env : Env) (w : World) (calls : List Purchase) :
    (purchases env).Guarded (fun w x => x.Agrees env w) w calls ↔
      (purchases env).Guarded (fun w x => x.Fair env w) w calls :=
  Machine.guarded_congr fun _ x => x.agrees_iff_fair

/-- A shop with the card 2 and the item 7, visited by an entity with 300 in gold and a card of another kind. -/
def cardShop : World where
  entityAt _ := { pack := { gold := 300, cards := [5] } }
  cardAt _ := { baseid := 1, base := {} }
  nextCard := 6
  scene := some { members := [1], triggerEvent := some {
    id := 3, category := .shopBuyCard, content := some { shop := some { cards := some [2], items := some [7] } } } }

/-- The first card of a kind is sold as listed, in agreement with the list. -/
example : (purchases plainEnv).Guarded (fun w x => x.Agrees plainEnv w) cardShop [.card 1 3 2] := by
  refine ⟨Purchase.card_agrees_iff.2 fun shop price hargs _ _ hpriced _ _ => ?_, fun _ _ => trivial⟩
  cases hargs
  cases hpriced
  exact iff_of_true ⟨rfl, by decide +kernel, ⟨{}, rfl, rfl⟩, by decide +kernel⟩ ⟨rfl, by decide⟩

/-- The second card of a kind is listed at -1 and sold, and the item is listed at 100 and not sold. -/
theorem not_purchases_agree_cardShop :
    ¬ (purchases plainEnv).Guarded (fun w x => x.Agrees plainEnv w) cardShop [.card 1 3 2, .card 1 3 2] ∧
    ¬ (purchases plainEnv).Guarded (fun w x => x.Agrees plainEnv w) cardShop [.item 1 3 7] := by
  constructor
  · rintro ⟨-, hrest⟩
    obtain ⟨⟨hiff, -⟩, -⟩ := hrest _ rfl
    have hbuy : wp (scenePurchaseCard plainEnv 1 3 2) (fun rc _ => rc = true) (fun _ _ => False)
        (endState (scenePurchaseCard plainEnv 1 3 2) cardShop) := by decide +kernel
    obtain ⟨_, w', hok, rfl⟩ := exists_ok_of_wp hbuy
    obtain ⟨p, hshown, hp, -, -⟩ := hiff.1 ⟨w', hok⟩
    obtain ⟨-, -, -, -, hprice⟩ := Purchase.shown_card.1 hshown
    have hfind : (endState (scenePurchaseCard plainEnv 1 3 2) cardShop).cardFind 1 2 ≠ none := by decide +kernel
    exact hfind ((Purchase.cardPrice_eq_some hp).1 hprice).1
  · rintro ⟨⟨hiff, -⟩, -⟩
    have hshown : (Purchase.item 1 3 7).Shown plainEnv cardShop 100 :=
      Purchase.shown_item.2 ⟨_, rfl, ⟨fun _ _ => rfl, fun _ _ => rfl⟩, by decide +kernel, rfl⟩
    obtain ⟨w', hok⟩ := hiff.2 ⟨100, hshown, by decide, by decide +kernel, by show (0 : ℤ) < 99; decide⟩
    exact scenePurchaseItem_ne_true 7 hok

end Slam.Game
