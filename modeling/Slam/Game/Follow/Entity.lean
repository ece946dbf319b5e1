import Slam.Game.Steps

/-!
# The functions of one entity follow the track

One lemma for each function of the source, in the order of the model. A function that only changes
numbers, buffs and items follows `quietTrack`; a card that moves from one stack to another, leaves the
hand or is filed makes a step of its own. What the acts of scripts do is assumed to follow the track.
-/

namespace Slam.Game

open Raising Track

variable {env : Env} {adding : Bool} {act : Act → Run Unit} {fuel : ℕ} {α : Type}

/-! ### Quiet functions -/

theorem quiet_assertion (p : Prop) [Decidable p] {f : Func} (h : f.tracked = false) :
    quietTrack.Follows (assertion p f) :=
  Follows.ite (fun _ => follows_pure _) fun _ => follows_throw fun w => ⟨.refl w, h⟩

theorem quiet_throw {f : Fault} (h : f.Plain) : quietTrack.Follows (throw f : Run α) :=
  follows_throw fun w => ⟨.refl w, h⟩

theorem quiet_getPack (e : ℤ) : quietTrack.Follows (getPack e) := follows_get.bind fun _ => follows_pure _

theorem quiet_notify (c : ClientCall) : quietTrack.Follows (notify c) :=
  follows_modify fun w => { Quiet.refl w with }

theorem quiet_getMatch : quietTrack.Follows getMatch := by
  refine follows_get.bind fun _ => ?_
  split
  · exact follows_pure _
  · exact quiet_throw trivial

/-- Writing numbers or buffs of a pack, if `maxhp` stays zero or more. -/
theorem quiet_modifyPack {e : ℤ} {f : Pack → Pack} (hcore : ∀ p, (f p).core = p.core)
    (hmaxhp : ∀ p, 0 ≤ p.maxhp → 0 ≤ (f p).maxhp) (hitems : ∀ p, (f p).items = p.items) :
    quietTrack.Follows (modifyPack e f) :=
  follows_modify fun _ => .setPack (hcore _) (hmaxhp _) (hitems _)

theorem quiet_setCard {c : ℤ} {f : World → Card} (h : ∀ w, (f w).baseid = (w.cardAt c).baseid) :
    quietTrack.Follows (modify fun w => w.setCard c (f w)) := by
  refine follows_modify fun w => { Quiet.refl w with cardBaseid := ?_ }
  intro i _
  by_cases hi : i = c
  · subst hi
    simpa [World.setCard] using h w
  · simp [World.setCard, hi]

/-- Writing the number of an item that is in a pack. -/
theorem quiet_setItem {w : World} {e i : ℤ} {x : Item} (hi : i ∈ (w.pack e).items)
    (h : x.baseid = (w.itemAt i).baseid) : Quiet w (w.setItem i x) :=
  { Quiet.refl w with
    itemBaseid := fun j _ => by
      by_cases hj : j = i
      · subst hj
        simpa [World.setItem] using h
      · simp [World.setItem, hj]
    unowned := fun j _ hj => by
      have hne : j ≠ i := fun hji => hj e (hji ▸ hi)
      exact ⟨hj, by simp [World.setItem, hne]⟩ }

theorem quiet_setBuff (b : ℤ) (f : World → Buff) : quietTrack.Follows (modify fun w => w.setBuff b (f w)) :=
  follows_modify fun w => { Quiet.refl w with }

/-- `Card:new` takes the next identifier. -/
theorem wp_cardNew (baseid : ℤ) (w : World) :
    wp (cardNew env baseid) (fun c w' => Quiet w w' ∧ c = w.nextCard ∧ w.nextCard < w'.nextCard)
      (fun f w' => Quiet w w' ∧ f.Plain) w := by
  have htake : Quiet w { w with nextCard := w.nextCard + 1 } :=
    { Quiet.refl w with nextCard := by simp }
  have hnew (base : CardBase) : Quiet w
      (World.setCard { w with nextCard := w.nextCard + 1 } w.nextCard { baseid := baseid, base := base }) :=
    { htake with
      cardBaseid := fun c hc => by simp [World.setCard, Function.update_of_ne (ne_of_lt hc)] }
  simp only [cardNew, wp_bind, wp_get, wp_modify]
  split
  · exact ⟨htake, rfl⟩
  · simp only [wp_bind, wp_modify, wp_assertion, wp_pure]
    exact ⟨fun _ => ⟨hnew _, trivial, by simp [World.setCard]⟩, fun _ => ⟨hnew _, rfl⟩⟩

theorem quiet_itemNew (baseid number : ℤ) : quietTrack.Follows (itemNew env baseid number) := by
  intro w
  rw [itemNew]
  split
  · exact ⟨.refl w, trivial⟩
  · rename_i base _
    have hnew : Quiet w (World.setItem { w with nextItem := w.nextItem + 1 } w.nextItem
        { baseid := baseid, base := base, number := base.clampNumber number, useTimes := 0 }) :=
      { Quiet.refl w with
        nextItem := by simp [World.setItem]
        itemBaseid := fun i hi => by simp [World.setItem, Function.update_of_ne (ne_of_lt hi)]
        unowned := fun i hi hw => ⟨hw, by simp [World.setItem, Function.update_of_ne (ne_of_lt hi)]⟩
        items := fun _ => .refl .. }
    simp only [wp_bind, wp_get, wp_modify, wp_assertion, wp_pure]
    exact ⟨fun _ => hnew, fun _ => ⟨hnew, rfl⟩⟩

theorem quiet_layersAdd (b value : ℤ) : quietTrack.Follows (layersAdd b value) := quiet_setBuff _ _

theorem quiet_setField (c : ℤ) (base : CardBase) : quietTrack.Follows (setField c base) :=
  quiet_setCard fun _ => rfl

theorem quiet_buffNew (e baseid layers : ℤ) : quietTrack.Follows (buffNew env e baseid layers) := by
  refine follows_get.bind fun w => (follows_modify fun u => ?_).bind fun _ => ?_
  · exact { Quiet.refl u with }
  split
  · exact quiet_throw rfl
  · refine (quiet_assertion _ rfl).bind fun _ => (quiet_setBuff _ _).bind fun _ => ?_
    exact (quiet_layersAdd _ _).bind fun _ => follows_pure _

theorem quiet_attributeAdd (a : Attribute) (e value : ℤ) : quietTrack.Follows (attributeAdd a e value) := by
  refine Follows.ite (fun _ => follows_pure _) fun _ => (quiet_getPack e).bind fun p => ?_
  refine (quiet_assertion _ (by cases a <;> rfl)).bind fun _ => quiet_modifyPack ?_ ?_ ?_
  · intro p
    cases a <;> rfl
  · intro p hp
    cases a <;> exact hp
  · intro p
    cases a <;> rfl

theorem quiet_maxhpAdd (e value : ℤ) : quietTrack.Follows (maxhpAdd e value) := by
  refine Follows.ite (fun _ => follows_pure _) fun _ => ?_
  refine (quiet_modifyPack (by intro; rfl) (by intro p _; exact le_max_left 0 _) (by intro; rfl)).bind fun _ => ?_
  exact (quiet_getPack e).bind fun p => quiet_assertion _ rfl

theorem quiet_addGold (e value : ℤ) : quietTrack.Follows (addGold e value) := by
  refine (quiet_getPack e).bind fun p => (quiet_assertion _ rfl).bind fun _ => ?_
  refine (quiet_modifyPack (by intro; rfl) (by intro _ h; exact h) (by intro; rfl)).bind fun _ => ?_
  exact (quiet_getPack e).bind fun _ => quiet_notify _

/-- `Item:new` takes the next identifier, and no pack changes. -/
theorem wp_itemNew (baseid number : ℤ) (w : World) :
    wp (itemNew env baseid number) (fun i w' => Quiet w w' ∧ w'.entityAt = w.entityAt ∧ i = w.nextItem ∧
      i < w'.nextItem) (fun f w' => Quiet w w' ∧ f.Plain) w := by
  have hquiet := @quiet_itemNew env baseid number w
  cases hrun : itemNew env baseid number w with
  | error f u => rw [wp_error hrun] at hquiet ⊢; exact hquiet
  | ok i u =>
    rw [wp_ok hrun] at hquiet ⊢
    refine ⟨hquiet, ?_⟩
    have hnew : wp (itemNew env baseid number) (fun i w' => w'.entityAt = w.entityAt ∧ i = w.nextItem ∧ i < w'.nextItem)
        (fun _ _ => True) w := by
      rw [itemNew]
      split
      · exact trivial
      · simp only [wp_bind, wp_get, wp_modify, wp_assertion, wp_pure]
        exact ⟨fun _ => ⟨rfl, trivial, by simp [World.setItem]⟩, fun _ => trivial⟩
    exact (wp_ok hrun).1 hnew

/-- A new item comes to a pack that has a slot for it. -/
theorem Quiet.receiveItem {w : World} {e i : ℤ} (hroom : ((w.pack e).items.length : ℤ) < (w.entityAt e).base.maxPackSlots)
    {u : World} (hu : Quiet u w) (hi : u.nextItem ≤ i) (hlt : i < w.nextItem) (hsame : w.entityAt = u.entityAt) :
    Quiet u (w.setPack e { w.pack e with items := (w.pack e).items ++ [i] }) := by
  have hcore : Quiet w (w.setPack e { w.pack e with items := (w.pack e).items }) := .setPack rfl id rfl
  have hpack (j : ℤ) : w.pack j = u.pack j := by rw [World.pack, hsame, World.pack]
  refine { hu with core := fun j => ?_, maxhp := fun j => ?_, slots := fun j => ?_, unowned := fun j hj hw => ?_
                   items := fun j => ?_ }
  · refine Eq.trans ?_ ((hcore.core j).trans (hu.core j))
    by_cases hje : j = e
    · subst hje
      simp only [World.setPack, World.entityAt_setEntity_self]
      rfl
    · simp only [World.setPack, World.entityAt_setEntity_of_ne w hje]
  · intro hm
    by_cases hje : j = e
    · subst hje
      rw [World.pack_setPack_self]
      exact hu.maxhp j hm
    · rw [World.pack_setPack_of_ne w hje]
      exact hu.maxhp j hm
  · by_cases hje : j = e
    · subst hje
      rw [World.pack_setPack_self, ← hu.base j]
      simp only [List.length_append, List.length_singleton, Nat.cast_add, Nat.cast_one]
      omega
    · rw [World.pack_setPack_of_ne w hje]
      exact hu.slots j
  · obtain ⟨hown, hitem⟩ := hu.unowned j hj hw
    refine ⟨fun k => ?_, hitem⟩
    by_cases hke : k = e
    · subst hke
      rw [World.pack_setPack_self]
      have hne : j ≠ i := by omega
      simpa [hne] using hown k
    · rw [World.pack_setPack_of_ne w hke]
      exact hown k
  · by_cases hje : j = e
    · subst hje
      rw [World.pack_setPack_self, hpack]
      exact ⟨[i], rfl, List.nodup_singleton i, fun k hk => by rw [List.mem_singleton.1 hk]; exact ⟨hi, hlt⟩⟩
    · rw [World.pack_setPack_of_ne w hje]
      exact hu.items j

/-- The loop fills at most the slots that are free. -/
theorem wp_addItemLoop (e baseid : ℤ) (slots : ℕ) : ∀ (number : ℤ) {w : World},
    (slots ≠ 0 → ((w.pack e).items.length : ℤ) + slots ≤ (w.entityAt e).base.maxPackSlots) →
    wp (addItemLoop env e baseid slots number) (fun _ w' => Quiet w w') (fun f w' => Quiet w w' ∧ f.Plain) w := by
  induction slots with
  | zero => exact fun _ w _ => .refl w
  | succ slots ih =>
    intro number w hroom
    have hroom := hroom (Nat.succ_ne_zero slots)
    rw [addItemLoop, wp_ite]
    refine ⟨fun _ => ?_, fun _ => .refl w⟩
    rw [wp_bind]
    refine wp_mono (wp_itemNew baseid number w) ?_ fun _ _ h => h
    rintro i u ⟨hu, hsame, rfl, hlt⟩
    have hpack : u.pack e = w.pack e := by rw [World.pack, hsame, World.pack]
    rw [wp_bind, wp_getPack, wp_bind, wp_assertion]
    refine ⟨fun _ => ?_, fun _ => ⟨hu, rfl⟩⟩
    rw [wp_bind, wp_modifyPack, wp_bind, wp_notify_tell, wp_bind, wp_get, wp_ite]
    obtain ⟨v, hv⟩ : ∃ v, v = (u.setPack e { u.pack e with items := (u.pack e).items ++ [w.nextItem] }).tell
        [.bagAddItem e w.nextItem] := ⟨_, rfl⟩
    have hquiet : Quiet w v := by
      have hfits : ((u.pack e).items.length : ℤ) < (u.entityAt e).base.maxPackSlots := by
        rw [hpack, hsame]
        push_cast at hroom
        omega
      rw [hv]
      exact (Quiet.receiveItem hfits hu (le_refl _) hlt hsame).trans { Quiet.refl _ with }
    rw [← hv]
    refine ⟨fun _ => ?_, fun _ => hquiet⟩
    refine wp_mono (ih _ fun _ => ?_) (fun _ _ h => hquiet.trans h) fun _ _ h => ⟨hquiet.trans h.1, h.2⟩
    have hlength : (v.pack e).items.length = (w.pack e).items.length + 1 := by
      rw [hv, World.pack_tell, World.pack_setPack_self, hpack]
      simp
    rw [hlength, hquiet.base e]
    push_cast at hroom ⊢
    omega

theorem quiet_addItem (e baseid number : ℤ) : quietTrack.Follows (addItem env e baseid number) := by
  intro w
  have hfree {u : World} (hitems : (u.pack e).items = (w.pack e).items) (hbase : (u.entityAt e).base = (w.entityAt e).base) :
      w.freeSlots e ≠ 0 → ((u.pack e).items.length : ℤ) + w.freeSlots e ≤ (u.entityAt e).base.maxPackSlots := by
    rw [hitems, hbase, World.freeSlots]
    omega
  rw [addItem, wp_bind, wp_get]
  split
  · exact wp_addItemLoop e baseid _ number (hfree rfl rfl)
  · rename_i i hfind
    have hi : i ∈ (w.pack e).items := env.mem_pairs.1 (List.mem_of_find?_eq_some hfind)
    rw [wp_bind, setNumber, wp_modify, wp_bind, wp_get, wp_bind, wp_notify_tell]
    obtain ⟨u, hu⟩ : ∃ u, u = w.setItem i { w.itemAt i with
        number := (w.itemAt i).base.clampNumber ((w.itemAt i).number + (number + (w.itemAt i).number)) } := ⟨_, rfl⟩
    have hquiet (calls : List ClientCall) : Quiet w (u.tell calls) := by
      have hset : Quiet w u := hu ▸ quiet_setItem hi rfl
      exact hset.trans { Quiet.refl _ with }
    show wp _ _ _ ((w.setItem i _).tell _)
    rw [← hu]
    refine wp_mono (wp_addItemLoop e baseid _ _ (hfree (hu ▸ rfl) (hu ▸ rfl))) ?_ ?_
    · exact fun _ _ h => (hquiet _).trans h
    · exact fun _ _ h => ⟨(hquiet _).trans h.1, h.2⟩

theorem quiet_tableRandom (e : ℤ) (keys : List ℤ) : quietTrack.Follows (tableRandom env e keys) := by
  refine Follows.ite (fun _ => follows_pure _) fun _ => follows_get.bind fun w => ?_
  refine (follows_modify fun w => ?_).bind fun _ => follows_pure _
  exact .setEntity rfl id rfl

theorem quiet_pickEntity (pick : Option ℤ) : quietTrack.Follows (pickEntity pick) := by
  cases pick with
  | none => exact follows_pure _
  | some p =>
    exact quiet_getMatch.bind fun m => Follows.ite (fun _ => follows_pure _) fun _ => follows_pure _

/-! ### Stacks -/

theorem Stack.get_set_of_ne {s t : Stack} (h : s ≠ t) (p : Pack) (cards : List ℤ) :
    s.get (t.set p cards) = s.get p := by
  cases s <;> cases t <;> first | rfl | exact absurd rfl h

@[simp] theorem Stack.get_set_self (s : Stack) (p : Pack) (cards : List ℤ) :
    s.get (s.set p cards) = cards := by
  cases s <;> rfl

@[simp] theorem Stack.settling_set (s : Stack) (p : Pack) (cards : List ℤ) :
    (s.set p cards).settling = p.settling := by
  cases s <;> rfl

theorem Stack.insert_stack (s : Stack) : s.insert.stack = true := by cases s <;> rfl

@[simp] theorem World.pack_touch (w : World) (e i : ℤ) : (w.touch e).pack i = w.pack i := rfl

theorem World.touch_touch (w : World) (e : ℤ) : (w.touch e).touch e = w.touch e := by
  by_cases h : e ∈ w.locked <;> simp [World.touch, h]

theorem World.touch_setPack (w : World) (e i : ℤ) (p : Pack) :
    (w.setPack i p).touch e = (w.touch e).setPack i p := rfl

/-- A card that is in two places. -/
theorem not_nodup_of_mem {p : Pack} {s t : Stack} {c : ℤ} (hne : s ≠ t) (hs : c ∈ s.get p)
    (ht : c ∈ t.get p) : ¬ p.inPlay.Nodup := by
  intro hnodup
  simp only [Pack.inPlay, List.nodup_append] at hnodup
  cases s <;> cases t <;> simp only [Stack.get] at hs ht <;> first
    | exact absurd rfl hne
    | grind

/-- A card that is being settled and is in a stack. -/
theorem not_nodup_of_settling {p : Pack} {s : Stack} {c : ℤ} (hs : c ∈ s.get p)
    (hc : c ∈ p.settling) : ¬ p.inPlay.Nodup := by
  intro hnodup
  simp only [Pack.inPlay, List.nodup_append] at hnodup
  cases s <;> simp only [Stack.get] at hs <;> grind

/-- Writing the pack of an entity whose stacks are used. -/
theorem kept_touch (w : World) (e : ℤ) (p : Pack) : Kept w ((w.touch e).setPack e p) where
  locked := rfl
  early he := by
    show (w.early || _) = true
    rw [he, Bool.true_or]
  stack i hi hearly s := by
    -- The stacks of a locked entity are not used without being noticed, so `i` is another one.
    have hne : i ≠ e := by
      rintro rfl
      have htouched : (w.early || decide (i ∈ w.locked)) = false := hearly
      simp [hi] at htouched
    rw [World.pack_setPack_of_ne _ hne, World.pack_touch]

/-- Writing a pack without its stacks. -/
theorem kept_setPack {w : World} {e : ℤ} {p : Pack} (h : ∀ s : Stack, s.get p = s.get (w.pack e)) :
    Kept w (w.setPack e p) where
  locked := rfl
  early := id
  stack i _ _ s := by
    by_cases hi : i = e
    · subst hi
      simpa using h s
    · rw [World.pack_setPack_of_ne _ hi]

theorem settling_setPack (w : World) (e i : ℤ) (p : Pack) :
    ((w.setPack e p).pack i).settling = if i = e then p.settling else (w.pack i).settling := by
  by_cases hi : i = e
  · subst hi
    simp
  · rw [World.pack_setPack_of_ne _ hi, if_neg hi]

theorem bracket_setPack {w w' : World} {e : ℤ} {p : Pack} (hw : ∀ i, w'.pack i = w.pack i)
    (hkept : Kept w (w'.setPack e p)) (h : p.settling = (w.pack e).settling) :
    Bracket w (w'.setPack e p) where
  toKept := hkept
  settling i := by
    rw [settling_setPack, hw]
    split_ifs with hi
    · rw [h, hi]
    · rfl

theorem bracket_touch {w : World} {e : ℤ} {p : Pack} (h : p.settling = (w.pack e).settling) :
    Bracket w ((w.touch e).setPack e p) :=
  bracket_setPack (fun _ => rfl) (kept_touch w e p) h

/-- A card goes from one stack to another. -/
theorem wp_shift {w : World} {e c : ℤ} {s t : Stack} (hne : s ≠ t) (hc : c ∈ s.get (w.pack e)) :
    wp (do stackInsert t e c; stackRemove s e c)
      (fun _ w' => (logicTrack adding).ok w w' ∧ w' = (w.touch e).setPack e ((w.pack e).shift s t c))
      (fun f w' => (logicTrack adding).error f w w') w := by
  simp only [stackInsert, stackRemove, wp_bind, wp_getPack, wp_assertion, wp_modify, wp_modifyPack,
    World.pack_touch, World.pack_setPack_self, Stack.get_set_of_ne hne, World.touch_setPack,
    World.touch_touch, World.setPack_setPack]
  refine ⟨fun ht => ⟨fun _ => ⟨⟨.single ?_, bracket_touch ?_⟩, ?_⟩, fun hs => absurd hc hs⟩, fun ht => ?_⟩
  · convert Step.shift hne hc ht using 2
    rw [Pack.shift, Stack.get_set_of_ne hne]
  · simp
  · rw [Pack.shift, Stack.get_set_of_ne hne]
  · refine ⟨w, .refl, fun _ => List.suffix_rfl, .stack t.insert_stack (.inr (.inl ⟨e, ?_⟩)) (.refl w)⟩
    exact not_nodup_of_mem hne hc (not_not.1 ht)

/-- A shuffle moves every card of one stack to another: the cards still to be moved are on it. -/
theorem follows_shuffle {s t : Stack} (hne : s ≠ t) (e : ℤ) :
    (logicTrack adding).Follows (do
      (env.pairs (s.get (← getPack e))).forM fun c => do stackInsert t e c; stackRemove s e c) := by
  have hloop (cs : List ℤ) : ∀ w : World, cs.Subperm (s.get (w.pack e)) →
      wp (cs.forM fun c => do stackInsert t e c; stackRemove s e c)
        (fun _ w' => (logicTrack adding).ok w w') (fun f w' => (logicTrack adding).error f w w') w := by
    induction cs with
    | nil => exact fun w _ => (logicTrack adding).refl w
    | cons c cs ih =>
      intro w hcs
      show wp ((do stackInsert t e c; stackRemove s e c) >>= fun _ => cs.forM _) _ _ _
      rw [wp_bind]
      refine wp_mono (wp_shift hne (hcs.subset (List.mem_cons_self ..))) ?_ fun _ _ h => h
      rintro _ w' ⟨hok, rfl⟩
      refine wp_trans hok (ih _ ?_)
      rw [World.pack_setPack_self, Pack.shift, Stack.get_set_of_ne hne, Stack.get_set_self]
      have hsub : ((c :: cs).erase c).Subperm ((s.get (w.pack e)).erase c) := hcs.erase c
      rwa [List.erase_cons_head] at hsub
  intro w
  rw [wp_bind, wp_getPack]
  exact hloop _ w (env.pairs_perm _).subperm

theorem follows_drawOne {f : Func} {s : Stack} (hs : s ≠ .hold) (e : ℤ) {w : World}
    (hcards : s.get (w.pack e) ≠ []) :
    wp (drawOne env f s e) (fun _ w' => (logicTrack adding).ok w w')
      (fun f w' => (logicTrack adding).error f w w') w := by
  obtain ⟨c, hc, happly⟩ := tableRandom_apply env (e := e) hcards w
  rw [drawOne, wp_bind, wp_getPack, wp_bind, wp_ok happly]
  have hseed : Quiet w (w.reseed e (s.get (w.pack e)).length) := .setEntity rfl id rfl
  refine wp_trans ⟨.single (.quiet hseed), hseed.bracket⟩ ?_
  simp only [wp_bind, wp_getPack, wp_assertion, World.pack_reseed]
  refine ⟨fun _ => ?_, fun h => absurd hc h⟩
  rw [← wp_bind]
  exact wp_mono (wp_shift hs (by simpa using hc)) (fun _ _ h => h.1) fun _ _ h => h

theorem follows_cardDraw {s : Stack} (hs : s ≠ .hold) (e : ℤ) (n : ℕ) :
    (logicTrack adding).Follows (cardDraw env s e n) := by
  induction n with
  | zero => exact follows_pure _
  | succ n ih =>
    intro w
    rw [cardDraw, wp_bind, wp_getPack, wp_ite]
    refine ⟨fun _ => (logicTrack adding).refl w, fun hlength => ?_⟩
    have hcards : s.get (w.pack e) ≠ [] := fun hnil => hlength (by rw [hnil]; rfl)
    rw [wp_bind]
    refine wp_mono (follows_drawOne hs e hcards) ?_ fun _ _ h => h
    intro _ w' hok
    exact wp_trans hok (ih w')

theorem follows_cardDrawFromStackdeal (e number : ℤ) :
    (logicTrack adding).Follows (cardDrawFromStackdeal env e number) :=
  follows_cardDraw (by decide) e _

theorem follows_cardDrawFromStackdiscard (e number : ℤ) :
    (logicTrack adding).Follows (cardDrawFromStackdiscard env e number) :=
  follows_cardDraw (by decide) e _

theorem follows_cardDrawFromStackexhaust (e number : ℤ) :
    (logicTrack adding).Follows (cardDrawFromStackexhaust env e number) :=
  follows_cardDraw (by decide) e _

theorem follows_shuffleStackdiscard (e : ℤ) : (logicTrack adding).Follows (shuffleStackdiscard env e) :=
  follows_shuffle (s := .discard) (t := .deal) nofun e

theorem follows_shuffleStackexhaust (e : ℤ) : (logicTrack adding).Follows (shuffleStackexhaust env e) :=
  follows_shuffle (s := .exhaust) (t := .deal) nofun e

theorem follows_dealCards (e : ℤ) (n : ℕ) : (logicTrack adding).Follows (dealCards env e n) := by
  induction n with
  | zero => exact follows_pure _
  | succ n ih =>
    -- The rest of a turn of the loop, after a possible shuffle.
    have hrest : (logicTrack adding).Follows (do
        if (← getPack e).stackDeal.length = 0 then return
        drawOne env .cardDealPick .deal e
        dealCards env e n) := by
      intro w
      rw [wp_bind, wp_getPack, wp_ite]
      refine ⟨fun _ => (logicTrack adding).refl w, fun hlength => ?_⟩
      have hcards : Stack.deal.get (w.pack e) ≠ [] := fun hnil => hlength (by rw [← List.length_nil, ← hnil]; rfl)
      rw [wp_bind]
      refine wp_mono (follows_drawOne (by decide) e hcards) ?_ fun _ _ h => h
      intro _ w' hok
      exact wp_trans hok (ih w')
    refine (follows_of_quiet (quiet_getPack e)).bind fun p => ?_
    exact Follows.ite (fun _ => (follows_shuffleStackdiscard e).bind fun _ => hrest) fun _ => hrest

theorem follows_stackHoldNewone (e baseid : ℤ) : (logicTrack adding).Follows (stackHoldNewone env e baseid) := by
  intro w
  rw [stackHoldNewone, wp_bind]
  refine wp_mono (wp_cardNew baseid w) ?_ ?_
  · rintro _ w' ⟨hq, rfl, hnext⟩
    simp only [stackHoldInsert, stackInsert, wp_bind, wp_getPack, wp_assertion, wp_modify, wp_modifyPack,
      World.pack_touch, World.pack_setPack_self, World.setPack_setPack]
    have hhold : Stack.hold.get (w'.pack e) = (w.pack e).stackHold := hq.stack e .hold
    constructor
    · intro hmem
      rw [hhold] at hmem
      refine ⟨.single (.newone hq hnext hmem), hq.bracket.trans (bracket_touch ?_)⟩
      rfl
    · intro hmem
      refine ⟨w, .refl, fun _ => List.suffix_rfl, .stack rfl (.inr (.inr ⟨e, ?_⟩)) hq⟩
      rwa [hhold, not_not] at hmem
  · rintro f w' ⟨hq, hf⟩
    exact ⟨w', .single (.quiet hq), hq.suffix, .plain hf⟩

theorem follows_addCard (hadding : adding = true) (e baseid : ℤ) :
    (logicTrack adding).Follows (addCard env e baseid) := by
  intro w
  rw [addCard, wp_bind]
  refine wp_mono (wp_cardNew baseid w) ?_ ?_
  · rintro _ w' ⟨hq, rfl, hnext⟩
    rw [wp_bind, wp_getPack, wp_bind, wp_assertion]
    constructor
    · intro _
      rw [wp_bind, wp_modifyPack]
      have hstep : (logicTrack adding).ok w
          (w'.setPack e { w'.pack e with cards := (w'.pack e).cards ++ [w.nextCard] }) := by
        refine ⟨.single (.addCard hadding hq hnext), hq.bracket.trans ?_⟩
        refine bracket_setPack (fun _ => rfl) (kept_setPack fun s => ?_) rfl
        cases s <;> rfl
      exact wp_trans hstep (follows_of_quiet ((quiet_notify _).bind fun _ => follows_pure _) _)
    · exact fun _ => ⟨w', .single (.quiet hq), hq.suffix, .plain rfl⟩
  · rintro f w' ⟨hq, hf⟩
    exact ⟨w', .single (.quiet hq), hq.suffix, .plain hf⟩

/-! ### Breakpoints and what calls them -/

section Scripts

variable (hact : ∀ f call w, ∀ a ∈ env.script f call w, (logicTrack adding).Follows (act a))
include hact

theorem follows_callScript (f : Option ScriptFunc) (call : ScriptCall) :
    (logicTrack adding).Follows (callScript env act f call) := by
  cases f with
  | none => exact follows_of_quiet (quiet_throw trivial)
  | some f => exact follows_get.bind fun w => Follows.forM fun a ha => hact f call w a ha

theorem follows_breakpoint (e : ℤ) (card pick : Option ℤ) (bp : Option BreakPoint) :
    (logicTrack adding).Follows (breakpoint env act e card pick bp) := by
  have hbuffs (pick : Option ℤ) : (logicTrack adding).Follows (do
      (env.pairs (← getPack e).buffs).forM fun b => do
        let w ← get
        let base := (w.buffAt b).base
        if b ∈ (w.pack e).buffs ∧ base.enableScript then
          callScript env act base.scriptFunc
            { entity := e, card := card, buff := some b, pick := pick, bp := bp }) := by
    refine (follows_of_quiet (quiet_getPack e)).bind fun p => Follows.forM fun b _ => ?_
    refine follows_get.bind fun w => ?_
    exact Follows.ite (fun _ => follows_callScript hact _ _) fun _ => follows_pure _
  refine (follows_of_quiet (quiet_pickEntity pick)).bind fun pick => ?_
  cases card with
  | none => exact hbuffs pick
  | some c =>
    refine follows_get.bind fun w => ?_
    refine Follows.ite (fun _ => ?_) fun _ => hbuffs pick
    exact (follows_callScript hact _ _).bind fun _ => hbuffs pick

theorem follows_buffAdd (e baseid layers : ℤ) :
    (logicTrack adding).Follows (buffAdd env act e baseid layers) := by
  rw [buffAdd]
  split
  · exact follows_of_quiet (quiet_throw rfl)
  · refine (follows_of_quiet (quiet_getPack e)).bind fun p => ?_
    refine Follows.ite (fun _ => follows_pure _) fun _ => follows_get.bind fun w => ?_
    split
    · exact follows_of_quiet (quiet_layersAdd _ _)
    · refine (follows_breakpoint hact _ _ _ _).bind fun _ => ?_
      refine (follows_of_quiet (quiet_buffNew _ _ _)).bind fun b => ?_
      refine (follows_of_quiet (quiet_getPack e)).bind fun p => ?_
      refine (follows_of_quiet (quiet_assertion _ rfl)).bind fun _ => ?_
      refine (follows_of_quiet (quiet_modifyPack ?_ ?_ ?_)).bind fun _ => follows_breakpoint hact _ _ _ _
      · intro p
        rfl
      · intro p hp
        exact hp
      · intro p
        rfl

theorem follows_buffRemove (e b : ℤ) : (logicTrack adding).Follows (buffRemove env act e b) := by
  refine (follows_of_quiet (quiet_getPack e)).bind fun p => ?_
  refine (follows_of_quiet (quiet_assertion _ rfl)).bind fun _ => ?_
  refine (follows_breakpoint hact _ _ _ _).bind fun _ => ?_
  refine (follows_of_quiet (quiet_getPack e)).bind fun p => ?_
  refine Follows.ite (fun _ => ?_) fun _ => ?_
  · exact follows_of_quiet (quiet_throw trivial)
  · refine (follows_of_quiet (quiet_modifyPack ?_ ?_ ?_)).bind fun _ => follows_breakpoint hact _ _ _ _
    · intro p
      rfl
    · intro p hp
      exact hp
    · intro p
      rfl

theorem follows_modifyLayers (b layers : ℤ) :
    (logicTrack adding).Follows (modifyLayers env act b layers) := by
  refine (follows_of_quiet (quiet_layersAdd _ _)).bind fun _ => follows_get.bind fun w => ?_
  exact Follows.ite (fun _ => follows_buffRemove hact _ _) fun _ => follows_pure _

theorem follows_cardDeal (e : ℤ) : (logicTrack adding).Follows (cardDeal env act e) := by
  refine follows_get.bind fun w => Follows.ite (fun _ => follows_pure _) fun _ => ?_
  refine (follows_breakpoint hact _ _ _ _).bind fun _ => ?_
  refine (follows_of_quiet (quiet_getPack e)).bind fun p => ?_
  refine (follows_of_quiet (quiet_assertion _ rfl)).bind fun _ => ?_
  exact (follows_dealCards e _).bind fun _ => follows_breakpoint hact _ _ _ _

theorem follows_roundBegin (e : ℤ) : (logicTrack adding).Follows (roundBegin env act e) := by
  refine follows_get.bind fun w => Follows.ite (fun _ => follows_pure _) fun _ => ?_
  refine (follows_breakpoint hact _ _ _ _).bind fun _ => follows_get.bind fun w => ?_
  refine (follows_of_quiet (quiet_assertion _ rfl)).bind fun _ => ?_
  have hrest : (logicTrack adding).Follows (do
      breakpoint env act e none none (some .roundBeginZ)
      cardDeal env act e) :=
    (follows_breakpoint hact _ _ _ _).bind fun _ => follows_cardDeal hact e
  refine Follows.ite (fun _ => ?_) fun _ => hrest
  exact (follows_of_quiet (quiet_attributeAdd _ _ _)).bind fun _ => hrest

end Scripts

/-! ### Cards that leave the hand -/

/-- After the breakpoint before a card leaves the hand, the stacks are as they were unless they have
been used too early. -/
theorem wp_whileLocked {x : Run Unit} (hx : (logicTrack adding).Follows x) (e : ℤ) (w : World) :
    wp (whileLocked e x) (fun _ w' => (logicTrack adding).ok w w' ∧
        (w'.early = false → ∀ s : Stack, s.get (w'.pack e) = s.get (w.pack e)))
      (fun f w' => (logicTrack adding).error f w w') w := by
  rw [whileLocked, wp_bind, wp_modify, wp_bind]
  refine wp_mono (hx { w with locked := e :: w.locked }) ?_ ?_
  · rintro _ u ⟨hmoves, hbracket⟩
    rw [wp_modify]
    refine ⟨⟨?_, ⟨?_, hbracket.early, ?_⟩, hbracket.settling⟩, ?_⟩
    · exact ((Relation.ReflTransGen.single (.lock e)).trans hmoves).tail .unlock
    · show u.locked.tail = w.locked
      rw [hbracket.locked]
      rfl
    · intro i hi hearly s
      exact hbracket.stack i (List.mem_cons_of_mem e hi) hearly s
    · exact fun hearly s => hbracket.stack e (List.mem_cons_self ..) hearly s
  · rintro f w' ⟨u, hmoves, hflight, hfail⟩
    exact ⟨u, (Relation.ReflTransGen.single (.lock e)).trans hmoves, hflight, hfail⟩

/-- Filing a card that has left the hand. -/
theorem wp_fileCard (adding : Bool) {w : World} {e c : ℤ} (hc : c ∈ (w.pack e).settling) :
    wp (fileCard e c)
      (fun _ w' => Moves adding w w' ∧ Kept w w' ∧ ∀ i, (w'.pack i).settling =
        if i = e then (w.pack e).settling.erase c else (w.pack i).settling)
      (fun f w' => (logicTrack adding).error f w w') w := by
  -- The two stacks on which a card may be put.
  have hinsert (s : Stack) : wp (do
        stackInsert s e c
        modifyPack e fun p => { p with settling := p.settling.erase c })
      (fun _ w' => Moves adding w w' ∧ Kept w w' ∧ ∀ i, (w'.pack i).settling =
        if i = e then (w.pack e).settling.erase c else (w.pack i).settling)
      (fun f w' => (logicTrack adding).error f w w') w := by
    simp only [stackInsert, wp_bind, wp_getPack, wp_assertion, wp_modify, wp_modifyPack,
      World.pack_touch, World.pack_setPack_self, World.setPack_setPack]
    constructor
    · intro hs
      have heq : { s.set (w.pack e) (s.get (w.pack e) ++ [c]) with
          settling := (s.set (w.pack e) (s.get (w.pack e) ++ [c])).settling.erase c } = (w.pack e).file s c := by
        rw [Pack.file, Stack.settling_set]
      rw [heq]
      exact ⟨.single (.file hc hs), kept_touch w e _, fun i => settling_setPack _ _ i _⟩
    · intro hs
      refine ⟨w, .refl, fun _ => List.suffix_rfl, .stack s.insert_stack (.inr (.inl ⟨e, ?_⟩)) (.refl w)⟩
      exact not_nodup_of_settling (not_not.1 hs) hc
  rw [fileCard, wp_bind, wp_get, wp_ite]
  refine ⟨fun _ => hinsert .discard, fun _ => ?_⟩
  rw [wp_ite]
  refine ⟨fun _ => hinsert .exhaust, fun _ => ?_⟩
  rw [wp_modifyPack]
  refine ⟨.single (.destroy hc), kept_setPack fun s => ?_, fun i => settling_setPack _ _ i _⟩
  cases s <;> rfl

theorem wp_leaveHand {Q : Unit → World → Prop} {E : Fault → World → Prop} {w : World} {e c : ℤ} :
    wp (leaveHand e c) Q E w ↔
      (c ∈ (w.pack e).stackHold → Q () ((w.touch e).setPack e ((w.pack e).leave c))) ∧
      (c ∉ (w.pack e).stackHold → E (.assertion .stackHoldRemove) w) := by
  simp only [leaveHand, stackHoldRemove, stackRemove, wp_bind, wp_getPack, wp_assertion, wp_modify,
    wp_modifyPack, World.pack_touch, World.pack_setPack_self, World.setPack_setPack]
  rfl

/-- A card that is in the hand leaves it, is settled and filed. -/
theorem wp_settleCard {x : Run Unit} (hx : (logicTrack adding).Follows x) {w : World} {e c : ℤ}
    (hc : w.early = false → c ∈ (w.pack e).stackHold) :
    wp (settleCard e c x) (fun _ w' => (logicTrack adding).ok w w')
      (fun f w' => (logicTrack adding).error f w w') w := by
  rw [settleCard, wp_bind, wp_leaveHand]
  constructor
  · intro hhold
    rw [wp_bind]
    have hstep : Step adding w ((w.touch e).setPack e ((w.pack e).leave c)) := .leave hhold
    have hkept := kept_touch w e ((w.pack e).leave c)
    have hleave (i : ℤ) :
        (w.pack i).settling <:+ (((w.touch e).setPack e ((w.pack e).leave c)).pack i).settling := by
      rw [settling_setPack]
      split_ifs with hi
      · subst hi
        exact List.suffix_cons _ _
      · exact List.suffix_rfl
    refine wp_mono (hx _) ?_ ?_
    · rintro _ u ⟨hmoves, hbracket⟩
      have hsettling (i : ℤ) : (u.pack i).settling =
          if i = e then c :: (w.pack e).settling else (w.pack i).settling := by
        rw [hbracket.settling i]
        exact settling_setPack _ _ _ _
      have hmem : c ∈ (u.pack e).settling := by simp [hsettling]
      refine wp_mono (wp_fileCard adding hmem) ?_ ?_
      · rintro _ w' ⟨hmoves', hkept', hsettling'⟩
        refine ⟨(hmoves.head hstep).trans hmoves', (hkept.trans hbracket.toKept).trans hkept', fun i => ?_⟩
        rw [hsettling' i]
        split_ifs with hi
        · rw [hsettling e, if_pos rfl, List.erase_cons_head, hi]
        · rw [hsettling i, if_neg hi]
      · rintro f w' ⟨v, hv, hflight, hfail⟩
        refine ⟨v, (hmoves.head hstep).trans hv, fun i => (hleave i).trans ?_, hfail⟩
        exact hbracket.settling i ▸ hflight i
    · rintro f w' ⟨v, hv, hflight, hfail⟩
      exact ⟨v, hv.head hstep, fun i => (hleave i).trans (hflight i), hfail⟩
  · intro hhold
    refine ⟨w, .refl, fun _ => List.suffix_rfl, .stack rfl (.inl ?_) (.refl w)⟩
    by_contra hne
    exact hhold (hc (Bool.eq_false_of_not_eq_true hne))

section Scripts

variable (hact : ∀ f call w, ∀ a ∈ env.script f call w, (logicTrack adding).Follows (act a))
include hact

theorem follows_cardPlay (e c : ℤ) (pick : Option ℤ) :
    (logicTrack adding).Follows (cardPlay env act e c pick) := by
  intro w
  rw [cardPlay, wp_bind, wp_get, wp_ite]
  refine ⟨fun _ => (logicTrack adding).refl w, fun _ => ?_⟩
  rw [wp_ite]
  refine ⟨fun _ => (logicTrack adding).refl w, fun hhold => ?_⟩
  rw [wp_ite]
  refine ⟨fun _ => (logicTrack adding).refl w, fun _ => ?_⟩
  rw [wp_bind]
  refine wp_mono (wp_whileLocked (follows_breakpoint hact _ _ _ _) e w) ?_ fun _ _ h => h
  rintro _ u ⟨hok, hstack⟩
  have hmem (hearly : u.early = false) : c ∈ (u.pack e).stackHold := by
    rw [show (u.pack e).stackHold = (w.pack e).stackHold from hstack hearly .hold]
    exact not_not.1 hhold
  refine wp_trans hok ?_
  rw [wp_bind, wp_get, wp_ite]
  refine ⟨fun _ => (logicTrack adding).refl u, fun _ => ?_⟩
  rw [wp_ite]
  refine ⟨fun _ => (logicTrack adding).refl u, fun _ => ?_⟩
  -- Charging and refunding mp is quiet, so the card stays in the hand.
  have hsettle (v : World) (hv : Quiet u v) : wp (do
        settleCard e c (breakpoint env act e (some c) pick (some .cardPlayZ))
        return true) (fun _ w' => (logicTrack adding).ok u w') (fun f w' => (logicTrack adding).error f u w') v := by
    refine wp_trans ⟨.single (.quiet hv), hv.bracket⟩ ?_
    rw [wp_bind]
    refine wp_mono (wp_settleCard (follows_breakpoint hact _ _ _ _) ?_) (fun _ _ h => h) fun _ _ h => h
    intro hearly
    rw [show (v.pack e).stackHold = (u.pack e).stackHold from hv.stack e .hold]
    exact hmem (hv.early ▸ hearly)
  have herror {f : Fault} {v : World} (h : Quiet u v ∧ f.Plain) : (logicTrack adding).error f u v :=
    ⟨v, .single (.quiet h.1), h.1.suffix, .plain h.2⟩
  rw [wp_bind]
  refine wp_mono (quiet_attributeAdd .mp e _ u) ?_ fun _ _ => herror
  intro _ v hv
  rw [wp_ite]
  refine ⟨fun _ => ?_, fun _ => hsettle v hv⟩
  rw [wp_bind]
  refine wp_mono (quiet_attributeAdd .mp e _ v) ?_ fun _ _ h => herror ⟨hv.trans h.1, h.2⟩
  intro _ v' hv'
  exact hsettle v' (hv.trans hv')

theorem follows_cardDiscard (e c : ℤ) (passive : Bool) :
    (logicTrack adding).Follows (cardDiscard env act e c passive) := by
  intro w
  rw [cardDiscard, wp_bind, wp_get, wp_ite]
  refine ⟨fun _ => (logicTrack adding).refl w, fun _ => ?_⟩
  rw [wp_ite]
  refine ⟨fun _ => (logicTrack adding).refl w, fun hhold => ?_⟩
  rw [wp_ite]
  refine ⟨fun _ => (logicTrack adding).refl w, fun _ => ?_⟩
  rw [wp_bind]
  refine wp_mono (wp_whileLocked (follows_breakpoint hact _ _ _ _) e w) ?_ fun _ _ h => h
  rintro _ u ⟨hok, hstack⟩
  refine wp_trans hok (wp_settleCard (follows_breakpoint hact _ _ _ _) fun hearly => ?_)
  rw [show (u.pack e).stackHold = (w.pack e).stackHold from hstack hearly .hold]
  exact not_not.1 hhold

theorem follows_discardExtra (e : ℤ) (fuel : ℕ) :
    (logicTrack adding).Follows (discardExtra env act e fuel) := by
  induction fuel with
  | zero => exact follows_of_quiet (quiet_throw trivial)
  | succ fuel ih =>
    refine (follows_of_quiet (quiet_getPack e)).bind fun p => ?_
    refine Follows.ite (fun _ => ?_) fun _ => follows_pure _
    split
    · exact follows_of_quiet (quiet_throw trivial)
    · exact (follows_cardDiscard hact e _ _).bind fun _ => ih

theorem follows_roundEnd (e : ℤ) : (logicTrack adding).Follows (roundEnd env act fuel e) := by
  refine follows_get.bind fun w => Follows.ite (fun _ => follows_pure _) fun _ => ?_
  refine (follows_breakpoint hact _ _ _ _).bind fun _ => ?_
  exact (follows_discardExtra hact e fuel).bind fun _ => follows_breakpoint hact _ _ _ _

end Scripts

end Slam.Game
