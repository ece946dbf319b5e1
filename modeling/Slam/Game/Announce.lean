import Slam.Game.Client

/-!
# What the client is told of a new entity

`Entity:new` ends with `notify_client`, and so do the puppets that are made with the entity. What the
client is told of them it can take whatever it had before (`Announced`), and it is about new entities
only, also if the making ends in an error.
-/

namespace Slam.Game

open Raising

variable {env : Env}

/-! ### Nothing is told -/

/-- The track of programs that tell the client nothing and make no entity. -/
def stillTrack : Track Fault World where
  ok w w' := w'.sent = w.sent ∧ w'.nextEntity = w.nextEntity
  error _ w w' := w'.sent = w.sent ∧ w'.nextEntity = w.nextEntity
  refl _ := ⟨rfl, rfl⟩
  trans h h' := ⟨h'.1.trans h.1, h'.2.trans h.2⟩
  trans_error h h' := ⟨h'.1.trans h.1, h'.2.trans h.2⟩

open Track

theorem still_assertion (p : Prop) [Decidable p] (f : Func) : stillTrack.Follows (assertion p f) :=
  Follows.ite (fun _ => follows_pure _) fun _ => follows_throw fun _ => ⟨rfl, rfl⟩

theorem still_modify {f : World → World} (hsent : ∀ w, (f w).sent = w.sent)
    (hnext : ∀ w, (f w).nextEntity = w.nextEntity) : stillTrack.Follows (modify f : Run PUnit) :=
  follows_modify fun w => ⟨hsent w, hnext w⟩

theorem still_cardNew (baseid : ℤ) : stillTrack.Follows (cardNew env baseid) := by
  refine follows_get.bind fun w => (still_modify (by intro; rfl) (by intro; rfl)).bind fun _ => ?_
  split
  · exact follows_throw fun _ => ⟨rfl, rfl⟩
  · exact (still_modify (by intro; rfl) (by intro; rfl)).bind fun _ => (still_assertion _ _).bind fun _ => follows_pure _

theorem still_itemNew (baseid number : ℤ) : stillTrack.Follows (itemNew env baseid number) := by
  rw [itemNew]
  split
  · exact follows_throw fun _ => ⟨rfl, rfl⟩
  · refine follows_get.bind fun w => (still_modify (by intro; rfl) (by intro; rfl)).bind fun _ => ?_
    exact (still_modify (by intro; rfl) (by intro; rfl)).bind fun _ => (still_assertion _ _).bind fun _ => follows_pure _

theorem still_buffNew (e baseid layers : ℤ) : stillTrack.Follows (buffNew env e baseid layers) := by
  refine follows_get.bind fun w => (still_modify (by intro; rfl) (by intro; rfl)).bind fun _ => ?_
  split
  · exact follows_throw fun _ => ⟨rfl, rfl⟩
  · refine (still_assertion _ _).bind fun _ => (still_modify (by intro; rfl) (by intro; rfl)).bind fun _ => ?_
    exact Follows.bind (still_modify (by intro; rfl) (by intro; rfl)) fun _ => follows_pure _

/-! ### What is told -/

/-- What the client has been told is about entities from `n` on, and it can take it in any state. -/
def Announced (n : ℤ) (w w' : World) : Prop :=
  ∃ calls, w'.sent = w.sent ++ calls ∧ (∀ call ∈ calls, n ≤ call.entity) ∧
    ∀ c : Client, ∃ c', c.replay calls = some c'

namespace Announced

variable {n m : ℤ} {w w' w'' : World}

theorem of_sent (h : w'.sent = w.sent) : Announced n w w' :=
  ⟨[], by rw [h, List.append_nil], nofun, fun c => ⟨c, rfl⟩⟩

theorem trans (h : Announced n w w') (h' : Announced n w' w'') : Announced n w w'' := by
  obtain ⟨calls, hsent, hnew, hreplay⟩ := h
  obtain ⟨calls', hsent', hnew', hreplay'⟩ := h'
  refine ⟨calls ++ calls', by rw [hsent', hsent, List.append_assoc], fun call hcall => ?_, fun c => ?_⟩
  · exact (List.mem_append.1 hcall).elim (hnew call) (hnew' call)
  · obtain ⟨c', hc'⟩ := hreplay c
    rw [Client.replay_append, hc']
    exact hreplay' c'

theorem mono (h : Announced n w w') (hmn : m ≤ n) : Announced m w w' := by
  obtain ⟨calls, hsent, hnew, hreplay⟩ := h
  exact ⟨calls, hsent, fun call hcall => hmn.trans (hnew call hcall), hreplay⟩

end Announced

/-- A pack that is being filled since the world `w`, for a new entity from `n` on. -/
structure Packing (n : ℤ) (w : World) (p : Pack) (u : World) : Prop where
  next : n ≤ u.nextEntity
  distinct : p.Distinct
  announced : Announced n w u

section Init

variable {n : ℤ} {w u : World} {p : Pack}

theorem Packing.still {u' : World} {p' : Pack} (h : Packing n w p u) (hp : p'.Distinct)
    (hstill : u'.sent = u.sent ∧ u'.nextEntity = u.nextEntity) : Packing n w p' u' :=
  ⟨hstill.2 ▸ h.next, hp, h.announced.trans (.of_sent hstill.1)⟩

theorem packing_initCard (h : Packing n w p u) (baseid : ℤ) :
    wp (initCard env p baseid) (Packing n w) (fun _ u' => Announced n w u') u := by
  rw [initCard, wp_bind]
  refine wp_mono (still_cardNew baseid u) (fun c u' hstill => ?_) fun _ _ hstill => h.announced.trans (.of_sent hstill.1)
  rw [wp_bind, wp_assertion]
  exact ⟨fun hc => h.still (h.distinct.addCard hc) hstill, fun _ => h.announced.trans (.of_sent hstill.1)⟩

theorem packing_initItemLoop (baseid : ℤ) (slots : ℕ) (number : ℤ) (h : Packing n w p u) :
    wp (initItemLoop env baseid slots number p) (Packing n w) (fun _ u' => Announced n w u') u := by
  induction slots generalizing number p u with
  | zero => exact h
  | succ slots ih =>
    rw [initItemLoop, wp_ite]
    refine ⟨fun _ => h, fun _ => ?_⟩
    rw [wp_bind]
    refine wp_mono (still_itemNew baseid number u) (fun i u' hstill => ?_)
      fun _ _ hstill => h.announced.trans (.of_sent hstill.1)
    rw [wp_bind, wp_assertion]
    refine ⟨fun hi => ?_, fun _ => h.announced.trans (.of_sent hstill.1)⟩
    have h' : Packing n w { p with items := p.items ++ [i] } u' := h.still (h.distinct.addItem hi) hstill
    rw [wp_bind, wp_get, wp_ite]
    exact ⟨fun _ => h', fun _ => ih _ h'⟩

theorem packing_initItem (base : EntityBase) (entry : ℤ × ℤ) (h : Packing n w p u) :
    wp (initItem env base p entry) (Packing n w) (fun _ u' => Announced n w u') u := by
  rw [initItem, wp_bind, wp_get]
  split
  · exact packing_initItemLoop _ _ _ h
  · rw [wp_bind, setNumber, wp_modify, wp_bind, wp_get]
    exact packing_initItemLoop _ _ _ (h.still h.distinct ⟨rfl, rfl⟩)

theorem packing_initBuff (e : ℤ) (entry : ℤ × ℤ) (h : Packing n w p u) :
    wp (initBuff env e p entry) (Packing n w) (fun _ u' => Announced n w u') u := by
  rw [initBuff, wp_bind, wp_get]
  split
  · rw [wp_bind, layersAdd, wp_modify]
    exact h.still h.distinct ⟨rfl, rfl⟩
  · rw [wp_bind, wp_modify, wp_bind]
    refine wp_mono (still_buffNew e u.nextBuff entry.1 _) (fun b u' hstill => ?_)
      fun _ _ hstill => h.announced.trans (.of_sent hstill.1)
    rw [wp_bind, wp_assertion]
    refine ⟨fun _ => h.still ⟨h.distinct.cards, h.distinct.items, h.distinct.equips⟩ hstill, fun _ => ?_⟩
    exact h.announced.trans (.of_sent hstill.1)

/-- The pack is filled, and the puppets made for it are announced. -/
theorem packing_packInit {new : ℤ → Run ℤ} (hnew : ∀ baseid u, n ≤ u.nextEntity → wp (new baseid)
      (fun _ u' => n ≤ u'.nextEntity ∧ Announced n u u') (fun _ u' => Announced n u u') u)
    (e baseid : ℤ) (base : EntityBase) (span : Span) (hn : n ≤ w.nextEntity) :
    wp (packInit env new e baseid base span) (Packing n w) (fun _ u' => Announced n w u') w := by
  have hpuppet {p : Pack} {u : World} (entry : ℤ × ℤ) (h : Packing n w p u) :
      wp (initPuppet new baseid p entry) (Packing n w) (fun _ u' => Announced n w u') u := by
    rw [initPuppet, wp_bind, wp_assertion]
    refine ⟨fun _ => ?_, fun _ => h.announced⟩
    rw [wp_bind]
    refine wp_mono (hnew entry.1 u h.next) ?_ fun _ _ hannounced => h.announced.trans hannounced
    rintro t u' ⟨hnext, hannounced⟩
    have hdone : Announced n w u' := h.announced.trans hannounced
    rw [wp_ite]
    refine ⟨fun _ => ?_, fun _ => ?_⟩
    · rw [wp_bind, wp_assertion]
      exact ⟨fun _ => ⟨hnext, ⟨h.distinct.cards, h.distinct.items, h.distinct.equips⟩, hdone⟩, fun _ => hdone⟩
    · rw [wp_bind, wp_assertion]
      refine ⟨fun _ => ?_, fun _ => hdone⟩
      rw [wp_bind, wp_assertion]
      exact ⟨fun _ => ⟨hnext, ⟨h.distinct.cards, h.distinct.items, h.distinct.equips⟩, hdone⟩, fun _ => hdone⟩
  have hinitial : Packing n w (Pack.initial e base span) w :=
    ⟨hn, ⟨List.nodup_nil, List.nodup_nil, List.nodup_nil⟩, .of_sent rfl⟩
  rw [packInit, wp_bind]
  refine wp_mono (wp_foldlM (fun b _ p u h => packing_initCard h b) hinitial) (fun p u h => ?_) fun _ _ h => h
  rw [wp_bind]
  refine wp_mono (wp_foldlM (fun x _ p u h => packing_initItem base x h) h) (fun p u h => ?_) fun _ _ h => h
  rw [wp_bind]
  refine wp_mono (wp_foldlM (fun x _ p u h => hpuppet x h) h) (fun p u h => ?_) fun _ _ h => h
  exact wp_foldlM (fun x _ p u h => packing_initBuff e x h) h

end Init

/-- What the client knows of a new entity `e`, made in the world `w`: it can take what it has been told in
any state, and has the pack of the entity then. -/
structure Presented (e : ℤ) (w w' : World) : Prop where
  distinct : (w'.pack e).Distinct
  told : ∃ calls, w'.sent = w.sent ++ calls ∧ (∀ call ∈ calls, w.nextEntity ≤ call.entity) ∧
    ∀ c : Client, ∃ c', c.replay calls = some c' ∧ c' e = (w'.pack e).mirror

theorem Presented.announced {e : ℤ} {w w' : World} (h : Presented e w w') : Announced w.nextEntity w w' := by
  obtain ⟨calls, hsent, hnew, hreplay⟩ := h.told
  exact ⟨calls, hsent, hnew, fun c => (hreplay c).imp fun _ hc => hc.1⟩

/-- The master and those that depend on it make up the line-up. -/
theorem Pack.zero_notMem_lineUp {p : Pack} {e : ℤ} (he : 0 < e) (h : ∀ t ∈ p.dependents e, e < t) : 0 ∉ p.lineUp := by
  intro hmem
  have hdep : (0 : ℤ) ∈ p.dependents e := List.mem_filter.2 ⟨hmem, decide_eq_true he.ne⟩
  exact absurd (h 0 hdep) (not_lt.2 he.le)

/-- **The client knows an entity as soon as it is made**, with the puppets that are made with it. -/
theorem presented_entityNew (side : Side) (span : Span) (fuel : ℕ) (master : Option ℤ) (baseid : ℤ) {w : World}
    (hpos : 0 < w.nextEntity) : wp (entityNew env side span fuel master baseid)
      (fun e w' => Presented e w w') (fun _ w' => Announced w.nextEntity w w') w := by
  induction fuel generalizing master baseid w with
  | zero => exact .of_sent rfl
  | succ fuel ih =>
    rw [entityNew, wp_bind, wp_get, wp_bind, wp_modify]
    split
    · exact .of_sent rfl
    rename_i base hbase
    rw [wp_bind, wp_modify, wp_bind]
    generalize hx : Entity.mk baseid base master side false false (env.birth w.nextEntity) {} none = x
    generalize hstart : World.setEntity { w with nextEntity := w.nextEntity + 1 } w.nextEntity x = w₁
    have hsent : w₁.sent = w.sent := by rw [← hstart]; rfl
    have hnext : w₁.nextEntity = w.nextEntity + 1 := by rw [← hstart]; rfl
    -- The puppets are made in the same way, with what is known of them.
    have hgrow (baseid : ℤ) (u : World) : wp (entityNew env side span fuel (some w.nextEntity) baseid)
        (fun t w' => t = u.nextEntity ∧ Grown u w' ∧ w'.Sound fuel t ∧ (w'.kin fuel t).Nodup)
        (fun _ w' => Grown u w') u := by
      refine wp_mono (wp_entityNew side span fuel _ baseid u) ?_ fun _ _ h => h
      rintro t w' ⟨ht, hgrown, hmade⟩
      exact ⟨ht, hgrown, hmade.sound, hmade.nodup⟩
    have htell (baseid : ℤ) (u : World) (hu : w.nextEntity ≤ u.nextEntity) :
        wp (entityNew env side span fuel (some w.nextEntity) baseid)
        (fun _ w' => w.nextEntity ≤ w'.nextEntity ∧ Announced w.nextEntity u w')
        (fun _ w' => Announced w.nextEntity u w') u := by
      refine wp_mono (wp_and (hgrow baseid u) (ih (some w.nextEntity) baseid (hpos.trans_le hu))) ?_ ?_
      · rintro t w' ⟨⟨-, hgrown, -⟩, hpresented⟩
        exact ⟨hu.trans hgrown.nextEntity, hpresented.announced.mono hu⟩
      · exact fun _ _ h => h.2.mono hu
    have hlt : w.nextEntity < w₁.nextEntity := by omega
    refine wp_mono (wp_and (filling_packInit hgrow hlt baseid base span)
      (packing_packInit htell w.nextEntity baseid base span hlt.le)) ?_ ?_
    · rintro p u ⟨hfilling, hpacking⟩
      rw [wp_bind, wp_modifyPack, wp_bind, wp_notifyClient, wp_pure, World.pack_setPack_self]
      obtain ⟨calls, htold, hnew, hreplay⟩ := hpacking.announced
      have hzero := Pack.zero_notMem_lineUp hpos fun t ht => (hfilling.sound t ht).1
      have hpack : ((u.setPack w.nextEntity p).tell (p.notifyCalls env w.nextEntity)).pack w.nextEntity = p := by
        rw [World.pack_tell, World.pack_setPack_self]
      refine ⟨by rw [hpack]; exact hpacking.distinct, calls ++ p.notifyCalls env w.nextEntity, ?_, ?_, fun c => ?_⟩
      · show u.sent ++ _ = _
        rw [htold, hsent, List.append_assoc]
      · intro call hcall
        rcases List.mem_append.1 hcall with hcall | hcall
        · exact hnew call hcall
        · exact (Pack.entity_notifyCalls hcall).ge
      · obtain ⟨c', hc'⟩ := hreplay c
        rw [Client.replay_append, hc', Option.bind_some, Client.replay_of_entity c' fun _ => Pack.entity_notifyCalls,
          replay_notifyCalls hpacking.distinct hfilling.lineUp.nodup hfilling.lineUp.slots.nodup hzero, hpack]
        exact ⟨_, rfl, Function.update_self ..⟩
    · rintro _ u ⟨-, hannounced⟩
      exact Announced.trans (.of_sent hsent) hannounced

end Slam.Game
