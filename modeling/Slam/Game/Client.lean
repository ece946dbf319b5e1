import Slam.Game.LineUp
import Slam.Game.Items

/-!
# The client's copy of a pack

The client keeps a copy of every pack and changes it as the host tells it. The store here is that of the
test harness, `tests/test_logic.lua`: each notification writes one table, and one that adds what is there
already or removes what is not there fails an assertion.

`Pack.mirror` is the copy of a pack. What the logic does to a pack and what it tells about it match: one
lemma for each kind of change. After `notify_client` the copy is right whatever it was before.
-/

namespace Slam.Game

open Raising

/-- The client's copy of a pack. -/
@[ext] structure ClientPack where
  cards : Finset ℤ := ∅
  items : Finset ℤ := ∅
  puppets : Finset ℤ := ∅
  equips : ℤ → Option ℤ := fun _ => none
  placeholders : ℤ → Option ℤ := fun _ => none
  gold : ℤ := 0

/-- The entity that a notification is about. -/
def ClientCall.entity : ClientCall → ℤ
  | bagAddCard e _ | bagRemoveCard e _ | bagAddItem e _ | bagRemoveItem e _ | bagSetItemNumber e _ _
  | equipBarAdd e _ _ | equipBarRemove e _ | bagAddPuppet e _ | bagRemovePuppet e _
  | bagArrangePlaceholder e _ _ | bagSetGold e _ _ | bagClearCard e | bagClearItem e | bagClearPuppet e
  | bagClearEquip e => e

/-- The functions `cc.Bag*` and `cc.EquipBar*` of the test harness, on the pack of the entity. -/
def ClientPack.receive (c : ClientPack) : ClientCall → Option ClientPack
  | .bagAddCard _ x => if x ∈ c.cards then none else some { c with cards := insert x c.cards }
  | .bagRemoveCard _ x => if x ∈ c.cards then some { c with cards := c.cards.erase x } else none
  | .bagAddItem _ x => if x ∈ c.items then none else some { c with items := insert x c.items }
  | .bagRemoveItem _ x => if x ∈ c.items then some { c with items := c.items.erase x } else none
  | .bagSetItemNumber _ _ _ => some c
  | .bagSetGold _ gold _ => some { c with gold := gold }
  | .bagAddPuppet _ x => if x ∈ c.puppets then none else some { c with puppets := insert x c.puppets }
  | .bagRemovePuppet _ x => if x ∈ c.puppets then some { c with puppets := c.puppets.erase x } else none
  | .bagArrangePlaceholder _ target slot =>
    if target = 0 then
      if c.placeholders slot = none then none
      else some { c with placeholders := Function.update c.placeholders slot none }
    else if c.placeholders slot = none then
      some { c with placeholders := Function.update c.placeholders slot (some target) }
    else none
  | .bagClearCard _ => some { c with cards := ∅ }
  | .bagClearItem _ => some { c with items := ∅ }
  | .bagClearPuppet _ => some { c with puppets := ∅, placeholders := fun _ => none }
  | .bagClearEquip _ => some { c with equips := fun _ => none }
  | .equipBarAdd _ slot x =>
    if c.equips slot = none then some { c with equips := Function.update c.equips slot (some x) } else none
  | .equipBarRemove _ slot =>
    if c.equips slot = none then none else some { c with equips := Function.update c.equips slot none }

/-- Several notifications about one entity; none if an assertion fails. -/
def ClientPack.replay (c : ClientPack) (calls : List ClientCall) : Option ClientPack :=
  calls.foldlM ClientPack.receive c

/-- The client: a pack for each entity. -/
abbrev Client := ℤ → ClientPack

/-- A notification. -/
def Client.receive (c : Client) (call : ClientCall) : Option Client :=
  ((c call.entity).receive call).map (Function.update c call.entity)

/-- Several notifications; none if an assertion fails. -/
def Client.replay (c : Client) (calls : List ClientCall) : Option Client := calls.foldlM Client.receive c

/-- The copy of a pack. -/
def Pack.mirror (p : Pack) : ClientPack where
  cards := p.cards.toFinset
  items := p.items.toFinset
  puppets := p.puppets.toFinset
  equips slot := p.equips.lookup slot
  placeholders slot := p.placeholders.lookup slot
  gold := p.gold

/-! ### Replaying -/

section Replay

variable {c : ClientPack} {calls calls' : List ClientCall} {e : ℤ}

@[simp] theorem ClientPack.replay_nil (c : ClientPack) : c.replay [] = some c := rfl

@[simp] theorem ClientPack.replay_cons (c : ClientPack) (call : ClientCall) (calls : List ClientCall) :
    c.replay (call :: calls) = (c.receive call).bind fun c => c.replay calls := rfl

theorem ClientPack.replay_append (c : ClientPack) (calls calls' : List ClientCall) :
    c.replay (calls ++ calls') = (c.replay calls).bind fun c => c.replay calls' := by
  rw [ClientPack.replay, List.foldlM_append]
  rfl

theorem Client.replay_append (c : Client) (calls calls' : List ClientCall) :
    c.replay (calls ++ calls') = (c.replay calls).bind fun c => c.replay calls' := by
  rw [Client.replay, List.foldlM_append]
  rfl

/-- Notifications about one entity change its pack only. -/
theorem Client.replay_of_entity (c : Client) (h : ∀ call ∈ calls, call.entity = e) :
    c.replay calls = ((c e).replay calls).map (Function.update c e) := by
  induction calls generalizing c with
  | nil => simp [Client.replay]
  | cons call calls ih =>
    have hcall : call.entity = e := h call (List.mem_cons_self ..)
    rw [ClientPack.replay_cons]
    show (c.receive call).bind (fun c => c.replay calls) = _
    rw [Client.receive, hcall]
    cases (c e).receive call with
    | none => rfl
    | some p =>
      rw [Option.map_some, Option.bind_some, Option.bind_some, ih _ fun x hx => h x (List.mem_cons_of_mem _ hx),
        Function.update_self]
      cases p.replay calls with
      | none => rfl
      | some q => rw [Option.map_some, Option.map_some, Function.update_idem]

/-- Notifications about other entities leave the pack of an entity as it is. -/
theorem Client.replay_of_ne {c c' : Client} (h : ∀ call ∈ calls, call.entity ≠ e) (hc : c.replay calls = some c') :
    c' e = c e := by
  induction calls generalizing c with
  | nil =>
    cases hc
    rfl
  | cons call calls ih =>
    obtain ⟨d, hd, hrest⟩ := Option.bind_eq_some_iff.1 (show (c.receive call).bind (fun c => c.replay calls) = _ from hc)
    obtain ⟨q, -, rfl⟩ := Option.map_eq_some_iff.1 hd
    rw [ih (fun x hx => h x (List.mem_cons_of_mem _ hx)) hrest]
    exact Function.update_of_ne (h call (List.mem_cons_self ..)).symm ..

end Replay

/-! ### Changes of a pack -/

section Changes

variable {p : Pack} {e : ℤ}

theorem toFinset_concat (l : List ℤ) (x : ℤ) : (l ++ [x]).toFinset = insert x l.toFinset := by
  ext y
  simp

theorem toFinset_erase {l : List ℤ} (h : l.Nodup) (x : ℤ) : (l.erase x).toFinset = l.toFinset.erase x := by
  ext y
  simp [h.mem_erase_iff]

theorem lookup_filter_eq (l : List (ℤ × ℤ)) (k : ℤ) :
    (fun slot => (l.filter fun x => x.1 ≠ k).lookup slot) = Function.update (fun slot => l.lookup slot) k none := by
  funext slot
  rw [Assoc.lookup_filter]
  by_cases h : slot = k
  · subst h
    simp
  · simp [h]

theorem lookup_concat_eq {l : List (ℤ × ℤ)} {k : ℤ} (h : l.lookup k = none) (v : ℤ) :
    (fun slot => (l ++ [(k, v)]).lookup slot) = Function.update (fun slot => l.lookup slot) k (some v) := by
  funext slot
  rw [Assoc.lookup_concat h]
  by_cases hk : slot = k
  · subst hk
    simp
  · simp [hk]

theorem mirror_addCard {c : ℤ} (h : c ∉ p.cards) :
    p.mirror.receive (.bagAddCard e c) = some ({ p with cards := p.cards ++ [c] } : Pack).mirror := by
  rw [ClientPack.receive, if_neg (by simpa [Pack.mirror] using h)]
  simp only [Pack.mirror, toFinset_concat]

theorem mirror_dropCard {c : ℤ} (hnodup : p.cards.Nodup) (h : c ∈ p.cards) :
    p.mirror.receive (.bagRemoveCard e c) = some (p.dropCard c).mirror := by
  rw [ClientPack.receive, if_pos (by simpa [Pack.mirror] using h)]
  simp only [Pack.mirror, Pack.dropCard, toFinset_erase hnodup]

theorem mirror_addItem {i : ℤ} (h : i ∉ p.items) :
    p.mirror.receive (.bagAddItem e i) = some ({ p with items := p.items ++ [i] } : Pack).mirror := by
  rw [ClientPack.receive, if_neg (by simpa [Pack.mirror] using h)]
  simp only [Pack.mirror, toFinset_concat]

theorem mirror_dropItem {i : ℤ} (hnodup : p.items.Nodup) (h : i ∈ p.items) :
    p.mirror.receive (.bagRemoveItem e i) = some (p.dropItem i).mirror := by
  rw [ClientPack.receive, if_pos (by simpa [Pack.mirror] using h)]
  simp only [Pack.mirror, Pack.dropItem, toFinset_erase hnodup]

theorem mirror_takeOff {slot i : ℤ} (hslot : p.equips.lookup slot ≠ none) (h : i ∉ p.items) :
    p.mirror.replay [.bagAddItem e i, .equipBarRemove e slot] = some (p.takeOff slot i).mirror := by
  rw [ClientPack.replay_cons, mirror_addItem h, Option.bind_some, ClientPack.replay_cons, ClientPack.receive,
    if_neg (by simpa [Pack.mirror] using hslot)]
  simp only [Pack.mirror, Pack.takeOff, Option.bind_some, ClientPack.replay_nil, lookup_filter_eq]

theorem mirror_putOn {slot i : ℤ} (hslot : p.equips.lookup slot = none) (hnodup : p.items.Nodup) (h : i ∈ p.items) :
    p.mirror.replay [.bagRemoveItem e i, .equipBarAdd e slot i] = some (p.putOn slot i).mirror := by
  rw [ClientPack.replay_cons, mirror_dropItem hnodup h, Option.bind_some, ClientPack.replay_cons, ClientPack.receive,
    if_pos (by simpa [Pack.mirror, Pack.dropItem] using hslot)]
  simp only [Pack.mirror, Pack.dropItem, Pack.putOn, Option.bind_some, ClientPack.replay_nil, lookup_concat_eq hslot]

theorem mirror_addPuppet {t : ℤ} (h : t ∉ p.puppets) :
    p.mirror.receive (.bagAddPuppet e t) = some (p.withPuppets (p.puppets ++ [t])).mirror := by
  rw [ClientPack.receive, if_neg (by simpa [Pack.mirror] using h)]
  simp only [Pack.mirror, Pack.withPuppets, toFinset_concat]

theorem mirror_removePuppet {t : ℤ} (hnodup : p.puppets.Nodup) (h : t ∈ p.puppets) :
    p.mirror.receive (.bagRemovePuppet e t) = some (p.withPuppets (p.puppets.erase t)).mirror := by
  rw [ClientPack.receive, if_pos (by simpa [Pack.mirror] using h)]
  simp only [Pack.mirror, Pack.withPuppets, toFinset_erase hnodup]

theorem mirror_clearPlaceholder {slot t : ℤ} (h : p.placeholders.lookup slot = some t) :
    p.mirror.receive (.bagArrangePlaceholder e 0 slot) = some (p.clearPlaceholder slot).mirror := by
  rw [ClientPack.receive, if_pos rfl, if_neg (by simp [Pack.mirror, h])]
  simp only [Pack.mirror, Pack.clearPlaceholder, lookup_filter_eq]

theorem mirror_setPlaceholder {slot t : ℤ} (h : p.placeholders.lookup slot = none) (ht : t ≠ 0) :
    p.mirror.receive (.bagArrangePlaceholder e t slot) = some (p.setPlaceholder slot t).mirror := by
  rw [ClientPack.receive, if_neg ht, if_pos (by simpa [Pack.mirror] using h), Pack.setPlaceholder_of_free h]
  simp only [Pack.mirror, lookup_concat_eq h]

theorem mirror_addEquip {slot i : ℤ} (hslot : p.equips.lookup slot = none) :
    p.mirror.receive (.equipBarAdd e slot i) = some ({ p with equips := p.equips ++ [(slot, i)] } : Pack).mirror := by
  rw [ClientPack.receive, if_pos (by simpa [Pack.mirror] using hslot)]
  simp only [Pack.mirror, lookup_concat_eq hslot]

/-- The client follows when a line-up is arranged. Its zero stands for nobody. -/
theorem Arranged.mirror {p' : Pack} {calls : List ClientCall} (h : Arranged e p p' calls) (hp : p.LineUp e)
    (hzero : 0 ∉ p.lineUp) : p.mirror.replay calls = some p'.mirror := by
  have hne {slot t : ℤ} (hat : p.placeholders.lookup slot = some t) : t ≠ 0 := by
    rintro rfl
    exact hzero (List.mem_append_right _ (List.mem_map.2 ⟨_, Assoc.mem_of_lookup hat, rfl⟩))
  have hbagne {t : ℤ} (hbag : t ∈ p.puppets) : t ≠ 0 := by
    rintro rfl
    exact hzero (List.mem_append_left _ hbag)
  have hnodup := List.nodup_append.1 hp.nodup
  have hout {slot t : ℤ} (hat : p.placeholders.lookup slot = some t) : t ∉ p.puppets := fun hbag =>
    hnodup.2.2 t hbag t (List.mem_map.2 ⟨_, Assoc.mem_of_lookup hat, rfl⟩) rfl
  cases h with
  | @back slot target hat hpuppet =>
    rw [ClientPack.replay_cons, mirror_clearPlaceholder hat, Option.bind_some, ClientPack.replay_cons,
      mirror_addPuppet (p := p.clearPlaceholder slot) (hout hat)]
    rfl
  | @field slot target hlegal hbag hfree =>
    rw [ClientPack.replay_cons, mirror_removePuppet hnodup.1 hbag, Option.bind_some, ClientPack.replay_cons,
      mirror_setPlaceholder (p := p.withPuppets (p.puppets.erase target)) hfree (hbagne hbag)]
    rfl
  | @relieve slot target old hlegal hbag hat hpuppet =>
    have hold : old ∉ p.puppets.erase target := fun hmem => hout hat (List.mem_of_mem_erase hmem)
    rw [ClientPack.replay_cons, mirror_removePuppet hnodup.1 hbag, Option.bind_some, ClientPack.replay_cons,
      mirror_clearPlaceholder (p := p.withPuppets (p.puppets.erase target)) hat, Option.bind_some,
      ClientPack.replay_cons, mirror_addPuppet (p := (p.withPuppets (p.puppets.erase target)).clearPlaceholder slot) hold,
      Option.bind_some, ClientPack.replay_cons, mirror_setPlaceholder ?_ (hbagne hbag)]
    · rfl
    · exact Pack.lookup_clearPlaceholder
  | @move source slot target hlegal hat hfree =>
    rw [ClientPack.replay_cons, mirror_clearPlaceholder hat, Option.bind_some, ClientPack.replay_cons,
      mirror_setPlaceholder hfree (hne hat)]
    rfl
  | @swap source slot target old hlegal hat hold =>
    have hfree : ((p.clearPlaceholder source).clearPlaceholder slot).placeholders.lookup source = none :=
      Assoc.lookup_eq_none.2 fun hmem =>
        Assoc.notMem_filter (l := p.placeholders) ((List.filter_sublist.map _).subset hmem)
    have hslot : source ≠ slot := by
      rintro rfl
      rw [Pack.lookup_clearPlaceholder] at hold
      cases hold
    have hfree' : (((p.clearPlaceholder source).clearPlaceholder slot).setPlaceholder source old).placeholders.lookup
        slot = none := by
      rw [Pack.setPlaceholder_of_free hfree, Assoc.lookup_concat hfree, if_neg hslot.symm]
      exact Pack.lookup_clearPlaceholder
    have hold' : old ≠ 0 := by
      refine @hne slot old ?_
      rw [Pack.clearPlaceholder, Assoc.lookup_filter, if_neg hslot.symm] at hold
      exact hold
    rw [ClientPack.replay_cons, mirror_clearPlaceholder hat, Option.bind_some, ClientPack.replay_cons,
      mirror_clearPlaceholder hold, Option.bind_some, ClientPack.replay_cons, mirror_setPlaceholder hfree hold',
      Option.bind_some, ClientPack.replay_cons, mirror_setPlaceholder hfree' (hne hat)]
    rfl

end Changes

/-! ### A pack told as a whole -/

/-- What `notify_client` tells about a pack. -/
def Pack.notifyCalls (p : Pack) (env : Env) (e : ℤ) : List ClientCall :=
  [.bagClearCard e, .bagClearItem e, .bagClearPuppet e, .bagClearEquip e, .bagSetGold e p.gold p.gold] ++
    (env.pairs p.cards).map (.bagAddCard e) ++ (env.pairs p.items).map (.bagAddItem e) ++
    p.equips.map (fun x => .equipBarAdd e x.1 x.2) ++ (env.pairs p.puppets).map (.bagAddPuppet e) ++
    p.placeholders.map fun x => .bagArrangePlaceholder e x.2 x.1

section Whole

variable {p : Pack} {env : Env} {e : ℤ}

theorem wp_forM_notify {α : Type} (xs : List α) (call : α → ClientCall) {Q : PUnit → World → Prop}
    {E : Fault → World → Prop} {w : World} :
    wp (xs.forM fun x => notify (call x)) Q E w ↔ Q () (w.tell (xs.map call)) := by
  induction xs generalizing w with
  | nil => simp [World.tell]
  | cons x xs ih =>
    show wp (notify (call x) >>= fun _ => xs.forM fun x => notify (call x)) Q E w ↔ _
    rw [wp_bind, wp_notify_tell, ih, World.tell_tell, List.map_cons, List.singleton_append]

/-- `notify_client` only tells. -/
theorem wp_notifyClient {Q : Unit → World → Prop} {E : Fault → World → Prop} {w : World} :
    wp (notifyClient env e) Q E w ↔ Q () (w.tell ((w.pack e).notifyCalls env e)) := by
  simp only [notifyClient, wp_bind, wp_getPack, wp_notify_tell, wp_forM_notify, World.tell_tell, Pack.notifyCalls]
  simp

theorem Pack.entity_notifyCalls {call : ClientCall} (h : call ∈ p.notifyCalls env e) : call.entity = e := by
  simp only [Pack.notifyCalls, List.mem_append, List.mem_map, List.mem_cons, List.not_mem_nil, or_false] at h
  rcases h with (((((rfl | rfl | rfl | rfl | rfl) | ⟨_, _, rfl⟩) | ⟨_, _, rfl⟩) | ⟨_, _, rfl⟩) | ⟨_, _, rfl⟩) | ⟨_, _, rfl⟩
    <;> rfl

/-- A table of a pack grows entry by entry, in a way that the client follows. -/
theorem replay_grow {α : Type} (f : List α → Pack) (call : α → ClientCall) (P : List α → Prop)
    (hcall : ∀ l x, P (l ++ [x]) → (f l).mirror.receive (call x) = some (f (l ++ [x])).mirror)
    (hP : ∀ l m, P (l ++ m) → P l) (l m : List α) (h : P (l ++ m)) :
    (f l).mirror.replay (m.map call) = some (f (l ++ m)).mirror := by
  induction m generalizing l with
  | nil => rw [List.append_nil, List.map_nil, ClientPack.replay_nil]
  | cons x m ih =>
    have hsplit : l ++ x :: m = l ++ [x] ++ m := by simp
    rw [hsplit] at h ⊢
    rw [List.map_cons, ClientPack.replay_cons, hcall l x (hP _ m h), Option.bind_some, ih _ h]

/-- What the client has to be told as different entries is different. -/
structure Pack.Distinct (p : Pack) : Prop where
  cards : p.cards.Nodup
  items : p.items.Nodup
  equips : (p.equips.map Prod.fst).Nodup

theorem nodup_concat {l : List ℤ} {x : ℤ} (h : l.Nodup) (hx : x ∉ l) : (l ++ [x]).Nodup := by
  rw [← List.concat_eq_append]
  exact h.concat hx

theorem Pack.Distinct.addCard (h : p.Distinct) {c : ℤ} (hc : c ∉ p.cards) :
    ({ p with cards := p.cards ++ [c] } : Pack).Distinct := ⟨nodup_concat h.cards hc, h.items, h.equips⟩

theorem Pack.Distinct.addItem (h : p.Distinct) {i : ℤ} (hi : i ∉ p.items) :
    ({ p with items := p.items ++ [i] } : Pack).Distinct := ⟨h.cards, nodup_concat h.items hi, h.equips⟩

theorem notMem_of_nodup_concat {α : Type} {l : List α} {x : α} (h : (l ++ [x]).Nodup) : x ∉ l := fun hmem =>
  (List.nodup_append.1 h).2.2 x hmem x (List.mem_singleton_self x) rfl

theorem lookup_of_nodup_concat {l : List (ℤ × ℤ)} {x : ℤ × ℤ} (h : ((l ++ [x]).map Prod.fst).Nodup) :
    l.lookup x.1 = none := by
  rw [List.map_append] at h
  exact Assoc.lookup_eq_none.2 (notMem_of_nodup_concat h)

/-- **After `notify_client` the client has the pack**, whatever it had before. -/
theorem replay_notifyCalls (hp : p.Distinct) (hlineUp : p.lineUp.Nodup) (hslots : (p.placeholders.map Prod.fst).Nodup)
    (hzero : 0 ∉ p.lineUp) (c : ClientPack) : c.replay (p.notifyCalls env e) = some p.mirror := by
  have hpuppets := (List.nodup_append.1 hlineUp).1
  have hperm (l : List ℤ) : (env.pairs l).toFinset = l.toFinset := List.toFinset_eq_of_perm _ _ (env.pairs_perm l)
  have hprefix {α : Type} (l m : List α) (h : (l ++ m).Nodup) : l.Nodup := (List.nodup_append.1 h).1
  have hmaps (l m : List (ℤ × ℤ)) (h : ((l ++ m).map Prod.fst).Nodup) : (l.map Prod.fst).Nodup := by
    rw [List.map_append] at h
    exact hprefix _ _ h
  -- The tables are told one after the other, into a pack that has the gold only.
  have hclear : c.replay [.bagClearCard e, .bagClearItem e, .bagClearPuppet e, .bagClearEquip e,
      .bagSetGold e p.gold p.gold] = some ({ gold := p.gold } : Pack).mirror := rfl
  have hcards := replay_grow (fun l => { gold := p.gold, cards := l }) (.bagAddCard e) List.Nodup
    (fun l x h => mirror_addCard (notMem_of_nodup_concat h)) hprefix [] (env.pairs p.cards)
    ((env.pairs_perm _).nodup_iff.2 hp.cards)
  have hitems := replay_grow (fun l => { gold := p.gold, cards := env.pairs p.cards, items := l }) (.bagAddItem e)
    List.Nodup (fun l x h => mirror_addItem (notMem_of_nodup_concat h)) hprefix [] (env.pairs p.items)
    ((env.pairs_perm _).nodup_iff.2 hp.items)
  have hequips := replay_grow
    (fun l => { gold := p.gold, cards := env.pairs p.cards, items := env.pairs p.items, equips := l })
    (fun x => .equipBarAdd e x.1 x.2) (fun l => (l.map Prod.fst).Nodup)
    (fun l x h => mirror_addEquip (lookup_of_nodup_concat h)) hmaps [] p.equips hp.equips
  have hbag := replay_grow
    (fun l => { gold := p.gold, cards := env.pairs p.cards, items := env.pairs p.items, equips := p.equips
                puppets := l })
    (.bagAddPuppet e) List.Nodup (fun l x h => mirror_addPuppet (notMem_of_nodup_concat h)) hprefix []
    (env.pairs p.puppets) ((env.pairs_perm _).nodup_iff.2 hpuppets)
  have hplaces := replay_grow
    (fun l => { gold := p.gold, cards := env.pairs p.cards, items := env.pairs p.items, equips := p.equips
                puppets := env.pairs p.puppets, placeholders := l })
    (fun x => .bagArrangePlaceholder e x.2 x.1) (fun l => (l.map Prod.fst).Nodup ∧ ∀ x ∈ l, x.2 ≠ 0)
    (fun l x h => by
      have hfree := lookup_of_nodup_concat h.1
      have hne := h.2 x (List.mem_append_right _ (List.mem_singleton_self x))
      rw [mirror_setPlaceholder hfree hne, Pack.setPlaceholder_of_free hfree])
    (fun l m h => ⟨hmaps l m h.1, fun x hx => h.2 x (List.mem_append_left _ hx)⟩) [] p.placeholders
    ⟨hslots, fun x hx hx0 => hzero (List.mem_append_right _ (List.mem_map.2 ⟨x, hx, hx0⟩))⟩
  simp only [List.nil_append] at hcards hitems hequips hbag hplaces
  rw [Pack.notifyCalls, ClientPack.replay_append, ClientPack.replay_append, ClientPack.replay_append,
    ClientPack.replay_append, ClientPack.replay_append, hclear, Option.bind_some, hcards, Option.bind_some, hitems,
    Option.bind_some, hequips, Option.bind_some, hbag, Option.bind_some, hplaces]
  simp only [Pack.mirror, hperm]

end Whole

end Slam.Game
