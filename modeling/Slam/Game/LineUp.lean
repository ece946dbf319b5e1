import Slam.Game.Growth

/-!
# The line-up: the bag and the placeholders

The puppets of an entity are in its bag or stand at one of three placeholders, and the entity itself
stands at one of them, as their master. `arrange_placeholder` moves them; what it does, when it does
not refuse, is one of the five cases of `Arranged`, and each of them permutes the puppets.

`remove_puppet` destroys the puppet with all that depends on it. The puppets of an entity, and theirs
in turn, are made after it and belong to nobody else, so the master and the other puppets are out of
reach (`World.Closed`).
-/

namespace Slam.Game

open Raising

variable {env : Env}

/-! ### Arranging it -/

/-- The pack with other puppets in its bag. -/
def Pack.withPuppets (p : Pack) (puppets : List ℤ) : Pack := { p with puppets := puppets }

/-- What `arrange_placeholder` does to a pack and tells the client, when it returns true. -/
inductive Arranged (e : ℤ) (p : Pack) : Pack → List ClientCall → Prop
  /-- A puppet goes back to the bag. -/
  | back {slot target : ℤ} (hat : p.placeholders.lookup slot = some target) (hpuppet : target ≠ e) :
    Arranged e p ((p.clearPlaceholder slot).withPuppets (p.puppets ++ [target]))
      [.bagArrangePlaceholder e 0 slot, .bagAddPuppet e target]
  /-- A puppet goes from the bag to a free placeholder. -/
  | field {slot target : ℤ} (hlegal : slot ∈ [Placeholder.front, Placeholder.middle, Placeholder.back])
    (hbag : target ∈ p.puppets) (hfree : p.placeholders.lookup slot = none) :
    Arranged e p ((p.withPuppets (p.puppets.erase target)).setPlaceholder slot target)
      [.bagRemovePuppet e target, .bagArrangePlaceholder e target slot]
  /-- A puppet takes the place of another one, which goes to the bag. -/
  | relieve {slot target old : ℤ} (hlegal : slot ∈ [Placeholder.front, Placeholder.middle, Placeholder.back])
    (hbag : target ∈ p.puppets) (hat : p.placeholders.lookup slot = some old) (hpuppet : old ≠ e) :
    Arranged e p
      (((p.clearPlaceholder slot).withPuppets (p.puppets.erase target ++ [old])).setPlaceholder slot target)
      [.bagRemovePuppet e target, .bagArrangePlaceholder e 0 slot, .bagAddPuppet e old,
        .bagArrangePlaceholder e target slot]
  /-- An entity moves to a free placeholder, or stays where it is. -/
  | move {source slot target : ℤ} (hlegal : slot ∈ [Placeholder.front, Placeholder.middle, Placeholder.back])
    (hat : p.placeholders.lookup source = some target)
    (hfree : (p.clearPlaceholder source).placeholders.lookup slot = none) :
    Arranged e p ((p.clearPlaceholder source).setPlaceholder slot target)
      [.bagArrangePlaceholder e 0 source, .bagArrangePlaceholder e target slot]
  /-- Two entities change places. -/
  | swap {source slot target old : ℤ} (hlegal : slot ∈ [Placeholder.front, Placeholder.middle, Placeholder.back])
    (hat : p.placeholders.lookup source = some target)
    (hold : (p.clearPlaceholder source).placeholders.lookup slot = some old) :
    Arranged e p
      ((((p.clearPlaceholder source).clearPlaceholder slot).setPlaceholder source old).setPlaceholder slot target)
      [.bagArrangePlaceholder e 0 source, .bagArrangePlaceholder e 0 slot, .bagArrangePlaceholder e old source,
        .bagArrangePlaceholder e target slot]

section Placeholders

variable {p : Pack} {e slot target : ℤ}

/-- Setting a placeholder that is free. -/
theorem Pack.setPlaceholder_of_free (h : p.placeholders.lookup slot = none) :
    p.setPlaceholder slot target = { p with placeholders := p.placeholders ++ [(slot, target)] } := by
  rw [Pack.setPlaceholder, Assoc.filter_eq_self (Assoc.lookup_eq_none.1 h)]

theorem Pack.lookup_clearPlaceholder : (p.clearPlaceholder slot).placeholders.lookup slot = none :=
  Assoc.lookup_eq_none.2 Assoc.notMem_filter

/-- Two packs have the same line-up if their puppets and their placeholders add up to the same. -/
theorem Pack.lineUp_perm {p' : Pack}
    (h : (p'.puppets : Multiset ℤ) + (p'.placeholders.map Prod.snd : List ℤ) =
      (p.puppets : Multiset ℤ) + (p.placeholders.map Prod.snd : List ℤ)) : p'.lineUp.Perm p.lineUp := by
  rw [← Multiset.coe_eq_coe]
  simpa only [Pack.lineUp, Multiset.coe_add] using h

/-- The entities at the placeholders are the one at a placeholder that is taken and the others. -/
theorem Slots.coe_eq {l : List (ℤ × ℤ)} (h : Slots l) (hat : l.lookup slot = some target) :
    ((l.map Prod.snd : List ℤ) : Multiset ℤ) =
      {target} + (((l.filter fun x => x.1 ≠ slot).map Prod.snd : List ℤ) : Multiset ℤ) := by
  have hperm := (Assoc.perm_cons_filter h.nodup ((Assoc.lookup_eq_some h.nodup).1 hat)).map Prod.snd
  rw [Multiset.coe_eq_coe.2 hperm]
  rfl

theorem coe_erase {l : List ℤ} {a : ℤ} (h : a ∈ l) : (l : Multiset ℤ) = {a} + (l.erase a : Multiset ℤ) := by
  rw [Multiset.coe_eq_coe.2 (List.perm_cons_erase h)]
  rfl

theorem coe_concat (l : List ℤ) (a : ℤ) : ((l ++ [a] : List ℤ) : Multiset ℤ) = (l : Multiset ℤ) + {a} := rfl

end Placeholders

/-- **Arranging a line-up permutes it**: no puppet is made or lost, and the master stays out of the bag. -/
theorem Arranged.lineUp {e : ℤ} {p p' : Pack} {calls : List ClientCall} (h : Arranged e p p' calls)
    (hp : p.LineUp e) : p'.lineUp.Perm p.lineUp ∧ p'.LineUp e := by
  have hbag := hp.notMem_puppets
  cases h with
  | @back slot target hat hpuppet =>
    have hperm : ((p.clearPlaceholder slot).withPuppets (p.puppets ++ [target])).lineUp.Perm p.lineUp := by
      refine Pack.lineUp_perm ?_
      simp only [Pack.withPuppets, Pack.clearPlaceholder]
      rw [coe_concat, hp.slots.coe_eq hat]
      exact add_assoc ..
    refine ⟨hperm, hp.of_perm hperm (hp.slots.filter _) ?_⟩
    simp only [Pack.withPuppets, List.mem_append, List.mem_singleton, not_or]
    exact ⟨hbag, hpuppet.symm⟩
  | @field slot target hlegal hmem hfree =>
    rw [Pack.setPlaceholder_of_free (p := p.withPuppets (p.puppets.erase target)) hfree]
    have hperm : (Pack.lineUp { p.withPuppets (p.puppets.erase target) with
        placeholders := p.placeholders ++ [(slot, target)] }).Perm p.lineUp := by
      refine Pack.lineUp_perm ?_
      simp only [List.map_append, List.map_singleton, Pack.withPuppets]
      rw [coe_concat, coe_erase hmem]
      abel
    exact ⟨hperm, hp.of_perm hperm (hp.slots.concat hfree hlegal target) fun he => hbag (List.mem_of_mem_erase he)⟩
  | @relieve slot target old hlegal hmem hat hpuppet =>
    rw [Pack.setPlaceholder_of_free
      (p := (p.clearPlaceholder slot).withPuppets (p.puppets.erase target ++ [old])) Pack.lookup_clearPlaceholder]
    have hperm : (Pack.lineUp { (p.clearPlaceholder slot).withPuppets (p.puppets.erase target ++ [old]) with
        placeholders := (p.clearPlaceholder slot).placeholders ++ [(slot, target)] }).Perm p.lineUp := by
      refine Pack.lineUp_perm ?_
      simp only [List.map_append, List.map_singleton, Pack.withPuppets, Pack.clearPlaceholder]
      rw [coe_concat, coe_concat, coe_erase hmem, hp.slots.coe_eq hat]
      abel
    refine ⟨hperm, hp.of_perm hperm ((hp.slots.filter _).concat Pack.lookup_clearPlaceholder hlegal target) ?_⟩
    simp only [Pack.withPuppets, List.mem_append, List.mem_singleton, not_or]
    exact ⟨fun he => hbag (List.mem_of_mem_erase he), hpuppet.symm⟩
  | @move source slot target hlegal hat hfree =>
    rw [Pack.setPlaceholder_of_free hfree]
    have hperm : (Pack.lineUp { p.clearPlaceholder source with
        placeholders := (p.clearPlaceholder source).placeholders ++ [(slot, target)] }).Perm p.lineUp := by
      refine Pack.lineUp_perm ?_
      simp only [List.map_append, List.map_singleton]
      rw [coe_concat, hp.slots.coe_eq hat, Pack.clearPlaceholder]
      abel
    exact ⟨hperm, hp.of_perm hperm ((hp.slots.filter _).concat hfree hlegal target) hbag⟩
  | @swap source slot target old hlegal hat hold =>
    -- The placeholder that is looked up second is another one, since the first is free by then.
    have hslots := hp.slots.filter fun x => x.1 ≠ source
    have hne : source ≠ slot := by
      rintro rfl
      rw [Pack.lookup_clearPlaceholder] at hold
      cases hold
    have hfree : ((p.clearPlaceholder source).clearPlaceholder slot).placeholders.lookup source = none :=
      Assoc.lookup_eq_none.2 fun hmem =>
        Assoc.notMem_filter (l := p.placeholders) ((List.filter_sublist.map _).subset hmem)
    have hfree' : (((p.clearPlaceholder source).clearPlaceholder slot).placeholders ++ [(source, old)]).lookup slot =
        none := by
      rw [Assoc.lookup_eq_none, List.map_append, List.mem_append, not_or]
      refine ⟨Assoc.notMem_filter, ?_⟩
      simpa using hne.symm
    have hat' : source ∈ [Placeholder.front, Placeholder.middle, Placeholder.back] :=
      hp.slots.legal _ ((Assoc.lookup_eq_some hp.slots.nodup).1 hat)
    rw [Pack.setPlaceholder_of_free hfree, Pack.setPlaceholder_of_free hfree']
    have hperm : (Pack.lineUp { (p.clearPlaceholder source).clearPlaceholder slot with
        placeholders := (((p.clearPlaceholder source).clearPlaceholder slot).placeholders ++ [(source, old)]) ++
          [(slot, target)] }).Perm p.lineUp := by
      refine Pack.lineUp_perm ?_
      simp only [List.map_append, List.map_singleton]
      rw [coe_concat, coe_concat, hp.slots.coe_eq hat]
      have hrest := hslots.coe_eq hold
      simp only [Pack.clearPlaceholder] at hrest ⊢
      rw [hrest]
      abel
    exact ⟨hperm, hp.of_perm hperm
      (((hslots.filter _).concat hfree hat' old).concat hfree' hlegal target) hbag⟩

section Programs

variable {w : World} {e : ℤ}

/-- How `arrange_placeholder` ends: it has arranged the pack and told the client, or done nothing. -/
def World.Rearranged (w : World) (e : ℤ) (r : Bool) (w' : World) : Prop :=
  match r with
  | true => ∃ p calls, Arranged e (w.pack e) p calls ∧ w' = (w.setPack e p).tell calls
  | false => w' = w

theorem wp_takeBack (h : (w.pack e).LineUp e) (placeholder : ℤ) :
    wp (takeBack e placeholder) (w.Rearranged e) (fun _ w' => w' = w) w := by
  rw [takeBack, wp_bind, wp_getPack]
  cases hat : (w.pack e).placeholders.lookup placeholder with
  | none => exact rfl
  | some target =>
    have hmem : target ∈ (w.pack e).placeholders.map Prod.snd :=
      List.mem_map.2 ⟨_, (Assoc.lookup_eq_some h.slots.nodup).1 hat, rfl⟩
    have hbag : target ∉ (w.pack e).puppets := fun hbag =>
      (List.nodup_append.1 h.nodup).2.2 target hbag target hmem rfl
    simp only [wp_ite, wp_pure, wp_bind, wp_modifyPack, wp_notify_tell, wp_getPack, wp_assertion]
    simp only [World.pack_tell, World.pack_setPack_self, World.setPack_tell, World.setPack_setPack, World.tell_tell]
    refine ⟨fun _ => rfl, fun hne => ⟨fun _ => ?_, fun hin => absurd hbag hin⟩⟩
    exact ⟨_, _, .back hat hne, rfl⟩

theorem wp_moveToPlaceholder (h : (w.pack e).LineUp e) {target placeholder : ℤ} (hbag : target ∈ (w.pack e).puppets)
    (hlegal : placeholder ∈ [Placeholder.front, Placeholder.middle, Placeholder.back]) :
    wp (moveToPlaceholder e target placeholder) (w.Rearranged e) (fun _ w' => w' = w) w := by
  have hne : target ≠ e := fun heq => h.notMem_puppets (heq ▸ hbag)
  simp only [moveToPlaceholder, wp_bind, wp_assertion, wp_getPack, wp_ite, wp_pure, wp_modifyPack, wp_notify_tell]
  refine ⟨fun _ => ⟨fun _ => rfl, fun hmaster => ?_⟩, fun heq => absurd hne heq⟩
  cases hat : (w.pack e).placeholders.lookup placeholder with
  | none =>
    simp only [wp_pure, wp_bind, wp_modifyPack, wp_notify_tell]
    simp only [World.pack_tell, World.pack_setPack_self, World.setPack_tell, World.setPack_setPack, World.tell_tell]
    exact ⟨_, _, .field hlegal hbag hat, rfl⟩
  | some old =>
    have hold : old ≠ e := fun heq => hmaster (by rw [hat, heq])
    have hmem : old ∈ (w.pack e).placeholders.map Prod.snd :=
      List.mem_map.2 ⟨_, (Assoc.lookup_eq_some h.slots.nodup).1 hat, rfl⟩
    have hout : old ∉ (w.pack e).puppets.erase target := fun hin =>
      (List.nodup_append.1 h.nodup).2.2 old (List.mem_of_mem_erase hin) old hmem rfl
    simp only [wp_pure, wp_bind, wp_modifyPack, wp_notify_tell, wp_getPack, wp_assertion]
    simp only [World.pack_tell, World.pack_setPack_self, World.setPack_tell, World.setPack_setPack, World.tell_tell]
    refine ⟨fun _ => ?_, fun hin => absurd hout hin⟩
    exact ⟨_, _, .relieve hlegal hbag hat hold, rfl⟩

theorem wp_swapPlaceholder (target : ℤ) {placeholder : ℤ}
    (hlegal : placeholder ∈ [Placeholder.front, Placeholder.middle, Placeholder.back]) :
    wp (swapPlaceholder env e target placeholder) (w.Rearranged e) (fun _ w' => w' = w) w := by
  rw [swapPlaceholder, wp_bind, wp_getPack]
  cases hfind : (env.pairs ((w.pack e).placeholders.map Prod.fst)).find? fun slot =>
      (w.pack e).placeholders.lookup slot = some target with
  | none => exact rfl
  | some source =>
    have hat : (w.pack e).placeholders.lookup source = some target := by simpa using List.find?_some hfind
    simp only [wp_bind, wp_modifyPack, wp_notify_tell, wp_getPack, World.pack_tell, World.pack_setPack_self]
    cases hold : ((w.pack e).clearPlaceholder source).placeholders.lookup placeholder with
    | none =>
      simp only [wp_pure, wp_bind, wp_modifyPack, wp_notify_tell]
      simp only [World.pack_tell, World.pack_setPack_self, World.setPack_tell, World.setPack_setPack, World.tell_tell]
      exact ⟨_, _, .move hlegal hat hold, rfl⟩
    | some old =>
      simp only [wp_pure, wp_bind, wp_modifyPack, wp_notify_tell]
      simp only [World.pack_tell, World.pack_setPack_self, World.setPack_tell, World.setPack_setPack, World.tell_tell]
      exact ⟨_, _, .swap hlegal hat hold, rfl⟩

/-- **What `arrange_placeholder` does**, for any arguments: one of the cases of `Arranged` when it returns
true, nothing when it returns false or raises. -/
theorem wp_arrangePlaceholder (h : (w.pack e).LineUp e) (target placeholder : Option ℤ) :
    wp (arrangePlaceholder env e target placeholder) (w.Rearranged e) (fun _ w' => w' = w) w := by
  match target, placeholder with
  | none, _ => exact rfl
  | some _, none => exact rfl
  | some target, some placeholder =>
    rw [arrangePlaceholder]
    simp only [wp_bind, wp_ite, wp_pure, wp_getPack]
    refine ⟨fun _ => rfl, fun hany => ⟨fun _ => wp_takeBack h placeholder, fun _ => ⟨fun _ => rfl, fun hnone => ?_⟩⟩⟩
    have hlegal : placeholder ∈ [Placeholder.front, Placeholder.middle, Placeholder.back] := by
      rw [not_not, List.mem_cons] at hany
      exact hany.resolve_left hnone
    exact ⟨fun hbag => wp_moveToPlaceholder h hbag hlegal, fun _ => wp_swapPlaceholder target hlegal⟩

end Programs

/-! ### Destroying a puppet -/

/-- All that depends on an entity of the list is in the list. -/
def World.Closed (w : World) (K : List ℤ) : Prop := ∀ s ∈ K, ∀ t ∈ (w.pack s).dependents s, t ∈ K

/-- Only entities of the list may have changed. -/
structure Spared (K : List ℤ) (w w' : World) : Prop where
  entityAt : ∀ s, s ∉ K → w'.entityAt s = w.entityAt s
  rest : { w' with entityAt := w.entityAt } = w

namespace Spared

variable {K : List ℤ} {w w' w'' : World}

theorem refl (K : List ℤ) (w : World) : Spared K w w := ⟨fun _ _ => rfl, rfl⟩

theorem trans (h : Spared K w w') (h' : Spared K w' w'') : Spared K w w'' := by
  refine ⟨fun s hs => (h'.entityAt s hs).trans (h.entityAt s hs), ?_⟩
  have hrest := congrArg (fun u : World => { u with entityAt := w.entityAt }) h'.rest
  exact hrest.trans h.rest

theorem pack (h : Spared K w w') {s : ℤ} (hs : s ∉ K) : w'.pack s = w.pack s := by
  rw [World.pack, h.entityAt s hs, World.pack]

theorem nextEntity (h : Spared K w w') : w'.nextEntity = w.nextEntity := (congrArg World.nextEntity h.rest :)

end Spared

/-- A destructor reaches no entity outside a closed list. -/
theorem spared_entityDestroy {K : List ℤ} (fuel : ℕ) {e : ℤ} {w : World} (he : e ∈ K) (hclosed : w.Closed K) :
    wp (entityDestroy env fuel e) (fun _ w' => Spared K w w' ∧ w'.Closed K) (fun _ w' => Spared K w w' ∧ w'.Closed K)
      w := by
  induction fuel generalizing e w with
  | zero => exact ⟨.refl K w, hclosed⟩
  | succ fuel ih =>
    rw [entityDestroy, wp_bind, wp_get]
    have hloop {ts : List ℤ} (hts : ∀ t ∈ ts, t ∈ K) {u : World} (hu : Spared K w u ∧ u.Closed K) :
        wp (ts.forM (entityDestroy env fuel)) (fun _ w' => Spared K w w' ∧ w'.Closed K)
          (fun _ w' => Spared K w w' ∧ w'.Closed K) u := by
      refine wp_forM (fun t ht u hu => ?_) hu
      refine wp_mono (ih (hts t ht) hu.2) ?_ ?_
      · exact fun _ _ hw => ⟨hu.1.trans hw.1, hw.2⟩
      · exact fun _ _ hw => ⟨hu.1.trans hw.1, hw.2⟩
    have hmem {t : ℤ} (ht : t ∈ (w.pack e).puppets ∨ t ∈ (w.pack e).placeholders.map Prod.snd) (hne : t ≠ e) : t ∈ K :=
      hclosed e he t (List.mem_filter.2 ⟨List.mem_append.2 ht, decide_eq_true hne⟩)
    dsimp only
    rw [wp_ite]
    refine ⟨fun _ => ⟨.refl K w, hclosed⟩, fun _ => ?_⟩
    rw [wp_bind]
    refine wp_mono (hloop (fun t ht => ?_) ⟨.refl K w, hclosed⟩) ?_ (fun _ _ h => h)
    · obtain ⟨ht, hne⟩ := List.mem_filter.1 ht
      exact hmem (.inl (env.mem_pairs.1 ht)) (of_decide_eq_true hne)
    intro _ u hu
    rw [wp_bind]
    refine wp_mono (hloop (fun t ht => ?_) hu) ?_ (fun _ _ h => h)
    · obtain ⟨ht, hne⟩ := List.mem_filter.1 ht
      exact hmem (.inr ht) (of_decide_eq_true hne)
    intro _ u hu
    rw [wp_bind, wp_modifyEntity]
    obtain ⟨u', hu'⟩ : ∃ u', u' = u.setEntity e { u.entityAt e with freed := true, pack := {} } := ⟨_, rfl⟩
    have hdone : Spared K w u' ∧ u'.Closed K := by
      rw [hu']
      refine ⟨hu.1.trans ⟨fun s hs => ?_, rfl⟩, fun s hs t ht => ?_⟩
      · have hne : s ≠ e := fun heq => hs (by rw [heq]; exact he)
        exact World.entityAt_setEntity_of_ne u hne _
      · by_cases hse : s = e
        · rw [hse, World.pack, World.entityAt_setEntity_self] at ht
          cases ht
        · rw [World.pack, World.entityAt_setEntity_of_ne u hse] at ht
          exact hu.2 s hs t ht
    rw [← hu']
    simp only [wp_bind, wp_get, wp_ite, wp_throw, wp_pure]
    exact ⟨fun _ => hdone, fun _ => hdone⟩

/-- The list of an entity and all that depends on it is closed. -/
theorem World.Sound.closed {w : World} {n : ℕ} {e : ℤ} (h : w.Sound n e) : w.Closed (w.kin n e) := by
  induction n generalizing e with
  | zero => exact h.elim
  | succ n ih =>
    intro s hs t ht
    rcases List.mem_cons.1 hs with rfl | hs
    · exact List.mem_cons_of_mem _ (List.mem_flatMap.2 ⟨t, ht, (h.2.2 t ht).2.mem_kin⟩)
    · obtain ⟨r, hr, hrs⟩ := List.mem_flatMap.1 hs
      exact List.mem_cons_of_mem _ (List.mem_flatMap.2 ⟨r, hr, ih (h.2.2 r hr).2 s hrs t ht⟩)

/-! ### Runs -/

/-- An entity with a line-up of puppets that are entities of their own. -/
structure World.LinedUp (w : World) (e : ℤ) : Prop where
  lineUp : (w.pack e).LineUp e
  own : ∃ n, w.Sound n e ∧ (w.kin n e).Nodup

namespace World.LinedUp

variable {w w' : World} {e : ℤ}

/-- Everything in the line-up has been made. -/
theorem lt (h : w.LinedUp e) {t : ℤ} (ht : t ∈ (w.pack e).lineUp) : t < w.nextEntity := by
  obtain ⟨n, hsound, -⟩ := h.own
  cases n with
  | zero => exact hsound.elim
  | succ n =>
    by_cases hte : t = e
    · rw [hte]
      exact hsound.2.1
    · exact (hsound.2.2 t (List.mem_filter.2 ⟨ht, decide_eq_true hte⟩)).2.lt

theorem grown (h : w.LinedUp e) (hgrown : Grown w w') : w'.LinedUp e := by
  obtain ⟨n, hsound, hnodup⟩ := h.own
  obtain ⟨hsound', hkin⟩ := hsound.grown hgrown
  refine ⟨?_, n, hsound', ?_⟩
  · rw [hgrown.pack hsound.lt]
    exact h.lineUp
  · rw [hkin]
    exact hnodup

/-- The entity gets another pack, with puppets that have been made after it. -/
theorem own_setPack {n : ℕ} {p : Pack} (hfreed : (w.entityAt e).freed = false) (he : e < w.nextEntity)
    (hdependents : ∀ t ∈ p.dependents e, e < t ∧ w.Sound n t) (calls : List ClientCall) :
    ((w.setPack e p).tell calls).Sound (n + 1) e ∧
      ((w.setPack e p).tell calls).kin (n + 1) e = e :: (p.dependents e).flatMap (w.kin n) := by
  have hpack : ((w.setPack e p).tell calls).pack e = p := w.pack_setPack_self e p
  have hkin {t : ℤ} (ht : t ∈ p.dependents e) : ((w.setPack e p).tell calls).Sound n t ∧
      ((w.setPack e p).tell calls).kin n t = w.kin n t := by
    obtain ⟨hlt, hsound⟩ := hdependents t ht
    refine hsound.congr (le_refl _) (fun s _ => ?_) fun s hs => ?_
    · show ((w.setPack e p).entityAt s).freed = _
      rw [World.entityAt_setPack]
    · have hne : s ≠ e := by
        have := (hsound.of_mem_kin hs).1
        omega
      rw [World.pack_tell, World.pack_setPack_of_ne _ hne]
  refine ⟨⟨?_, he, ?_⟩, ?_⟩
  · show ((w.setPack e p).entityAt e).freed = false
    rw [World.entityAt_setPack]
    exact hfreed
  · rw [hpack]
    exact fun t ht => ⟨(hdependents t ht).1, (hkin ht).1⟩
  · rw [World.kin, hpack, List.flatMap_congr fun t ht => (hkin ht).2]

/-- The entity gets a line-up of puppets that it had before. -/
theorem own_of_subperm {n : ℕ} (h : w.Sound (n + 1) e) {p : Pack}
    (hsub : (p.dependents e).Subperm ((w.pack e).dependents e)) (calls : List ClientCall) :
    ((w.setPack e p).tell calls).Sound (n + 1) e ∧
      ((w.setPack e p).tell calls).kin (n + 1) e = e :: (p.dependents e).flatMap (w.kin n) :=
  own_setPack h.1 h.2.1 (fun t ht => h.2.2 t (hsub.subset ht)) calls

theorem of_subperm (h : w.LinedUp e) {p : Pack} (hp : p.LineUp e)
    (hsub : (p.dependents e).Subperm ((w.pack e).dependents e)) (calls : List ClientCall) :
    ((w.setPack e p).tell calls).LinedUp e := by
  obtain ⟨n, hsound, hnodup⟩ := h.own
  cases n with
  | zero => exact hsound.elim
  | succ n =>
    obtain ⟨hsound', hkin⟩ := own_of_subperm hsound hsub calls
    refine ⟨by rw [World.pack_tell, World.pack_setPack_self]; exact hp, n + 1, hsound', ?_⟩
    rw [hkin]
    obtain ⟨l, hperm, hl⟩ := hsub
    have hnodup' := hnodup.sublist ((hl.flatMap (w.kin n)).cons_cons e)
    exact (((hperm.flatMap_right _).cons e).nodup_iff).1 hnodup'

/-- The entity and its puppets are not among those that may have changed. -/
theorem of_spared {n : ℕ} (hlineUp : (w.pack e).LineUp e) (hsound : w.Sound n e) (hnodup : (w.kin n e).Nodup)
    {K : List ℤ} (hout : ∀ s ∈ w.kin n e, s ∉ K) (hspared : Spared K w w') : w'.LinedUp e := by
  obtain ⟨hsound', hkin⟩ := hsound.congr hspared.nextEntity.ge (fun s hs => by rw [hspared.entityAt s (hout s hs)])
    fun s hs => by rw [hspared.pack (hout s hs)]
  refine ⟨?_, n, hsound', ?_⟩
  · rw [hspared.pack (hout e hsound.mem_kin)]
    exact hlineUp
  · rw [hkin]
    exact hnodup

end World.LinedUp

/-- A puppet in the bag is one of those that depend on the master. -/
theorem Pack.LineUp.mem_dependents {p : Pack} {e target : ℤ} (h : p.LineUp e) (htarget : target ∈ p.puppets) :
    target ∈ p.dependents e := by
  refine List.mem_filter.2 ⟨List.mem_append_left _ htarget, decide_eq_true ?_⟩
  rintro rfl
  exact h.notMem_puppets htarget

/-- The line-up without a puppet of the bag. -/
theorem Pack.LineUp.erase {p : Pack} {e target : ℤ} (h : p.LineUp e) (htarget : target ∈ p.puppets) :
    (p.withPuppets (p.puppets.erase target)).LineUp e ∧
      (target :: (p.withPuppets (p.puppets.erase target)).dependents e).Perm (p.dependents e) := by
  have hperm : (target :: (p.withPuppets (p.puppets.erase target)).lineUp).Perm p.lineUp :=
    (List.perm_cons_erase htarget).symm.append_right _
  refine ⟨⟨h.slots, ?_, h.master⟩, ?_⟩
  · exact (List.nodup_cons.1 (hperm.nodup_iff.2 h.nodup)).2
  · have hne : target ≠ e := fun heq => h.notMem_puppets (heq ▸ htarget)
    have hfilter := hperm.filter fun t => t ≠ e
    rwa [List.filter_cons, if_pos (decide_eq_true hne)] at hfilter

/-- **`remove_puppet`** takes the puppet out of the bag, and its destructor reaches neither the master nor
the other puppets. -/
theorem wp_removePuppet {w : World} {e : ℤ} (h : w.LinedUp e) (fuel : ℕ) (target : ℤ) :
    wp (removePuppet env fuel e target) (fun r w' => w'.LinedUp e ∧ (r = false → w' = w))
      (fun _ w' => w'.LinedUp e) w := by
  rw [removePuppet, wp_bind, wp_getPack, wp_ite]
  refine ⟨fun _ => ⟨h, fun _ => rfl⟩, fun hin => ?_⟩
  have htarget : target ∈ (w.pack e).puppets := not_not.1 hin
  obtain ⟨hlineUp, hperm⟩ := h.lineUp.erase htarget
  obtain ⟨n, hsound, hnodup⟩ := h.own
  cases n with
  | zero => exact hsound.elim
  | succ n =>
    obtain ⟨p, hp⟩ : ∃ p, p = (w.pack e).withPuppets ((w.pack e).puppets.erase target) := ⟨_, rfl⟩
    rw [← hp] at hlineUp hperm
    have hsub : (p.dependents e).Subperm ((w.pack e).dependents e) :=
      (List.sublist_cons_self target _).subperm.trans hperm.subperm
    obtain ⟨hsound', hkin⟩ := World.LinedUp.own_of_subperm hsound hsub [.bagRemovePuppet e target]
    have hlinedUp := h.of_subperm hlineUp hsub [.bagRemovePuppet e target]
    obtain ⟨-, hsoundt⟩ := hsound.2.2 target (h.lineUp.mem_dependents htarget)
    -- What depends on the puppet, what depends on the others, and the master are all different.
    have hsplit : (e :: (w.kin n target ++ (p.dependents e).flatMap (w.kin n))).Nodup := by
      refine (List.Perm.nodup_iff (List.Perm.cons e ?_)).2 hnodup
      exact hperm.flatMap_right (w.kin n)
    obtain ⟨hself, hrest⟩ := List.nodup_cons.1 hsplit
    have hdisjoint := (List.nodup_append.1 hrest).2.2
    obtain ⟨u, hu⟩ : ∃ u, u = (w.setPack e p).tell [.bagRemovePuppet e target] := ⟨_, rfl⟩
    rw [← hu] at hsound' hkin hlinedUp
    have hkint : u.Sound n target ∧ u.kin n target = w.kin n target := by
      refine hsoundt.congr (by rw [hu]; exact le_refl _) (fun s _ => ?_) fun s hs => ?_
      · rw [hu]
        show ((w.setPack e p).entityAt s).freed = _
        rw [World.entityAt_setPack]
      · have hne : s ≠ e := fun heq => hself (List.mem_append_left _ (heq ▸ hs))
        rw [hu, World.pack_tell, World.pack_setPack_of_ne _ hne]
    have hout : ∀ s ∈ u.kin (n + 1) e, s ∉ u.kin n target := by
      rw [hkin, hkint.2]
      intro s hs hst
      rcases List.mem_cons.1 hs with rfl | hs
      · exact hself (List.mem_append_left _ hst)
      · exact hdisjoint s hst s hs rfl
    have hnodup' : (u.kin (n + 1) e).Nodup := by
      rw [hkin]
      exact List.nodup_cons.2 ⟨fun hmem => hself (List.mem_append_right _ hmem), (List.nodup_append.1 hrest).2.1⟩
    rw [wp_bind, wp_modifyPack, wp_bind, wp_notify_tell]
    have hstate : (w.setPack e { w.pack e with puppets := (w.pack e).puppets.erase target }).tell
        [.bagRemovePuppet e target] = u := by rw [hu, hp]; rfl
    rw [hstate, wp_bind]
    refine wp_mono (spared_entityDestroy fuel hkint.1.mem_kin hkint.1.closed) ?_ ?_
    · rintro _ w' ⟨hspared, -⟩
      exact ⟨.of_spared hlinedUp.lineUp hsound' hnodup' hout hspared, nofun⟩
    · rintro _ w' ⟨hspared, -⟩
      exact .of_spared hlinedUp.lineUp hsound' hnodup' hout hspared

/-- **`add_puppet`** makes a puppet and puts it into the bag; if it cannot be made, the line-up stays. -/
theorem wp_addPuppet {w : World} {e : ℤ} (h : w.LinedUp e) (fuel : ℕ) (baseid : ℤ) :
    wp (addPuppet env fuel e baseid) (fun _ w' => w'.LinedUp e) (fun _ w' => w'.LinedUp e) w := by
  rw [addPuppet, wp_bind, wp_get, wp_bind]
  refine wp_mono (wp_entityNew _ _ fuel (some e) baseid w) ?_ (fun _ _ hgrown => h.grown hgrown)
  rintro t w' ⟨ht, hgrown, hmade⟩
  have h' := h.grown hgrown
  rw [wp_bind, wp_getPack, wp_bind, wp_assertion]
  refine ⟨fun _ => ?_, fun _ => h'⟩
  rw [wp_bind, wp_modifyPack, wp_bind, wp_notify_tell, wp_pure]
  obtain ⟨n, hsound, hnodup⟩ := h.own
  have hlt := hsound.lt
  have hpack : w'.pack e = w.pack e := hgrown.pack hlt
  have hnew : t ∉ (w.pack e).lineUp := fun hmem => absurd (h.lt hmem) (by omega)
  -- Depths are brought to the number of entities made since.
  obtain ⟨k, hk⟩ : ∃ k, k = (w'.nextEntity - e).toNat := ⟨_, rfl⟩
  have hnext := hgrown.nextEntity
  obtain ⟨hsoundw, hkinw⟩ := hsound.deep (k := k + 1) (by omega)
  obtain ⟨hsoundw', hkinw'⟩ := hsoundw.grown hgrown
  obtain ⟨hsoundt, hkint⟩ := hmade.sound.deep (k := k) (by omega)
  rw [hpack]
  obtain ⟨p, hp⟩ : ∃ p, p = (w.pack e).withPuppets ((w.pack e).puppets ++ [t]) := ⟨_, rfl⟩
  have hperm : p.lineUp.Perm (t :: (w.pack e).lineUp) := by
    rw [hp, Pack.lineUp, Pack.withPuppets, List.append_assoc]
    exact List.perm_middle
  have hdeps : (p.dependents e).Perm (t :: (w.pack e).dependents e) := by
    refine (hperm.filter _).trans ?_
    rw [List.filter_cons, if_pos (decide_eq_true (show t ≠ e by omega))]
    exact .refl _
  have hlineUp : p.LineUp e := by
    refine h.lineUp.insert hperm hnew ?_ ?_
    · rw [hp]
      exact h.lineUp.slots
    · rw [hp]
      exact List.Sublist.refl _
  have hmade' : ∀ s ∈ p.dependents e, e < s ∧ w'.Sound k s := by
    intro s hs
    rcases List.mem_cons.1 (hdeps.mem_iff.1 hs) with rfl | hs
    · exact ⟨by omega, hsoundt⟩
    · rw [← hpack] at hs
      exact hsoundw'.2.2 s hs
  obtain ⟨hsound', hkin⟩ := World.LinedUp.own_setPack hsoundw'.1 hsoundw'.2.1 hmade' [.bagAddPuppet e t]
  have hstate : (w'.setPack e { w.pack e with puppets := (w.pack e).puppets ++ [t] }).tell [.bagAddPuppet e t] =
      (w'.setPack e p).tell [.bagAddPuppet e t] := by rw [hp]; rfl
  rw [hstate]
  refine ⟨by rw [World.pack_tell, World.pack_setPack_self]; exact hlineUp, k + 1, hsound', ?_⟩
  rw [hkin]
  refine (List.Perm.nodup_iff (List.Perm.cons e (hdeps.flatMap_right (w'.kin k)))).2 ?_
  have hold : (e :: ((w.pack e).dependents e).flatMap (w'.kin k)).Nodup := by
    rw [← hpack]
    rw [← hkinw, ← hkinw'] at hnodup
    exact hnodup
  obtain ⟨hself, hrest⟩ := List.nodup_cons.1 hold
  rw [List.flatMap_cons]
  -- What depends on the new puppet has been made after all the others.
  have hafter : ∀ s ∈ w'.kin k t, w.nextEntity ≤ s := fun s hs => ht ▸ (hsoundt.of_mem_kin hs).1
  have hbefore : ∀ s ∈ ((w.pack e).dependents e).flatMap (w'.kin k), s < w.nextEntity := by
    intro s hs
    have hmem : s ∈ w'.kin (k + 1) e := by
      rw [World.kin, hpack]
      exact List.mem_cons_of_mem _ hs
    rw [hkinw'] at hmem
    exact (hsoundw.of_mem_kin hmem).2.1
  refine List.nodup_cons.2 ⟨?_, List.nodup_append.2 ⟨?_, hrest, ?_⟩⟩
  · intro hmem
    rcases List.mem_append.1 hmem with hmem | hmem
    · exact absurd (hafter e hmem) (by omega)
    · exact hself hmem
  · rw [hkint]
    exact hmade.nodup
  · rintro s hs r hr rfl
    exact absurd (hafter s hs) (not_le.2 (hbefore s hr))

/-- The calls that change a line-up. -/
inductive LineUpCall
  | addPuppet (baseid : ℤ)
  | removePuppet (target : Option ℤ)
  | arrangePlaceholder (target placeholder : Option ℤ)

namespace LineUpCall

def run (env : Env) (fuel : ℕ) (e : ℤ) : LineUpCall → Run Bool
  | addPuppet baseid => do
    let _ ← Game.addPuppet env fuel e baseid
    return true
  -- There is no puppet under nil, and the log line about it formats nil.
  | removePuppet none => throw .formatNil
  | removePuppet (some target) => Game.removePuppet env fuel e target
  | arrangePlaceholder target placeholder => Game.arrangePlaceholder env e target placeholder

/-- Arranging neither makes nor loses a puppet. -/
def Conserves (e : ℤ) (w w' : World) : LineUpCall → Prop
  | arrangePlaceholder _ _ => (w'.pack e).lineUp.Perm (w.pack e).lineUp
  | _ => True

/-- What a call that returns `r` leaves: a line-up, the same one if the call refuses. -/
structure Leaves (e : ℤ) (call : LineUpCall) (w : World) (r : Bool) (w' : World) : Prop where
  linedUp : w'.LinedUp e
  conserves : call.Conserves e w w'
  refused : r = false → (w'.pack e).puppets = (w.pack e).puppets ∧ (w'.pack e).placeholders = (w.pack e).placeholders

theorem wp_run {w : World} {e : ℤ} (h : w.LinedUp e) (fuel : ℕ) (call : LineUpCall) :
    wp (call.run env fuel e) (call.Leaves e w) (fun _ w' => w'.LinedUp e ∧ call.Conserves e w w') w := by
  cases call with
  | addPuppet baseid =>
    rw [run, wp_bind]
    refine wp_mono (wp_addPuppet h fuel baseid) ?_ ?_
    · exact fun _ _ h' => ⟨h', trivial, nofun⟩
    · exact fun _ _ h' => ⟨h', trivial⟩
  | removePuppet target =>
    cases target with
    | none => exact ⟨h, trivial⟩
    | some target =>
      refine wp_mono (wp_removePuppet h fuel target) ?_ ?_
      · rintro r w' ⟨h', hsame⟩
        refine ⟨h', trivial, fun hr => ?_⟩
        rw [hsame hr]
        exact ⟨rfl, rfl⟩
      · exact fun _ _ h' => ⟨h', trivial⟩
  | arrangePlaceholder target placeholder =>
    refine wp_mono (wp_arrangePlaceholder h.lineUp target placeholder) ?_ ?_
    · intro r w' hr
      cases r with
      | false =>
        obtain rfl : w' = w := hr
        exact ⟨h, .refl _, fun _ => ⟨rfl, rfl⟩⟩
      | true =>
        obtain ⟨p, calls, harranged, rfl⟩ := hr
        obtain ⟨hperm, hlineUp⟩ := harranged.lineUp h.lineUp
        refine ⟨h.of_subperm hlineUp (hperm.filter _).subperm calls, ?_, nofun⟩
        show (((w.setPack e p).tell calls).pack e).lineUp.Perm _
        rw [World.pack_tell, World.pack_setPack_self]
        exact hperm
    · rintro _ w' rfl
      exact ⟨h, .refl _⟩

end LineUpCall

/-- **The line-up is conserved**: from the moment an entity is made, whatever calls follow, with any
arguments and whether they return or raise, the bag and the placeholders are disjoint, nobody is in two
places, and the master stands at exactly one of the placeholders; arranging neither makes nor loses a
puppet, and a call that returns false changes neither table. -/
theorem lineUp_conserved {side : Side} {span : Span} {depth : ℕ} {master : Option ℤ} {baseid e : ℤ} {w₀ w : World}
    (hnew : entityNew env side span depth master baseid w₀ = .ok e w) (fuel : ℕ) (calls : List LineUpCall)
    (call : LineUpCall) :
    let w' := calls.foldl (fun w call => endState (call.run env fuel e) w) w
    (w'.pack e).LineUp e ∧
      wp (call.run env fuel e) (call.Leaves e w') (fun _ u => (u.pack e).LineUp e ∧ call.Conserves e w' u) w' := by
  have hmade := @wp_entityNew env side span depth master baseid w₀
  rw [wp_ok hnew] at hmade
  have hstart : w.LinedUp e := ⟨hmade.2.2.lineUp, depth, hmade.2.2.sound, hmade.2.2.nodup⟩
  have hall : (calls.foldl (fun w call => endState (call.run env fuel e) w) w).LinedUp e := by
    clear hnew hmade
    induction calls generalizing w with
    | nil => exact hstart
    | cons call calls ih =>
      have hnext : wp (call.run env fuel e) (fun _ u => u.LinedUp e) (fun _ u => u.LinedUp e) w :=
        wp_mono (LineUpCall.wp_run hstart fuel call) (fun _ _ h => h.linedUp) fun _ _ h => h.1
      exact ih (endState_of_wp hnext)
  refine ⟨hall.lineUp, wp_mono (LineUpCall.wp_run hall fuel call) (fun _ _ h => h) ?_⟩
  exact fun _ _ h => ⟨h.1.lineUp, h.2⟩

/-- A line-up of the master and one puppet, made from default rows. -/
theorem lineUp_conserved_plain :
    ∃ w, entityNew plainEnv .allies .copy 1 none 7 {} = .ok 0 w ∧
      let w' := [LineUpCall.addPuppet 8, .arrangePlaceholder (some 1) (some 2)].foldl
        (fun w call => endState (call.run plainEnv 1 0) w) w
      (w'.pack 0).LineUp 0 ∧
        wp (LineUpCall.run plainEnv 1 0 (.arrangePlaceholder (some 1) (some 1)))
          (LineUpCall.Leaves 0 (.arrangePlaceholder (some 1) (some 1)) w')
          (fun _ u => (u.pack 0).LineUp 0 ∧ LineUpCall.Conserves 0 w' u (.arrangePlaceholder (some 1) (some 1))) w' := by
  obtain ⟨w, hnew⟩ : ∃ w, entityNew plainEnv .allies .copy 1 none 7 {} = .ok 0 w := ⟨_, rfl⟩
  exact ⟨w, hnew, lineUp_conserved hnew 1 _ _⟩

end Slam.Game
