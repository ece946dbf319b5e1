import Slam.Game.Follow.Match
import Slam.Lib.Machine

/-!
# The numbers of an entity stay within their bounds

The hit points of an entity lie between zero and their maximum, the other numbers are not negative, and
an entity is dead exactly when it has no hit points left. Two of the functions that add to these numbers
do not keep to this: `maxhp_add` lowers the maximum below the hit points, and if the maximum falls to
zero it raises an error after it has written it; `hp_add` heals the dead. `AttributeCall.Safe` is what
rules this out, together with what a script that answers to damage or a death in a match may do in the
middle of `hp_add`: the call that goes on from there can raise, and what has been written stays written.
-/

namespace Slam.Game

open Raising

/-- Calls that add a value to a number of an entity. -/
inductive AttributeCall
  | hpAdd (value : ℤ)
  | maxhpAdd (value : ℤ)
  | attributeAdd (a : Attribute) (value : ℤ)
  | addGold (value : ℤ)

/-- The call, on the entity `e`. `attributeAdd` is `mp_add`, `strength_add`, `armor_add` or `shield_add`. -/
def AttributeCall.run (env : Env) (act : Act → Run Unit) (fuel : ℕ) (e : ℤ) : AttributeCall → Run Unit
  | hpAdd value => Game.hpAdd env act fuel e value
  | maxhpAdd value => Game.maxhpAdd e value
  | attributeAdd a value => Game.attributeAdd a e value
  | addGold value => Game.addGold e value

/-- The numbers of an entity are within their bounds. -/
structure World.Bounded (w : World) (e : ℤ) : Prop where
  hp : 0 ≤ (w.pack e).hp ∧ (w.pack e).hp ≤ (w.pack e).maxhp
  maxhp : 1 ≤ (w.pack e).maxhp
  numbers : ∀ a : Attribute, 0 ≤ a.get (w.pack e)
  gold : 0 ≤ (w.pack e).gold
  death : (w.entityAt e).death = true ↔ (w.pack e).hp = 0

/-- The pack with other hit points. -/
def Pack.withHp (p : Pack) (hp : ℤ) : Pack := { p with hp := hp }

theorem Pack.number_withHp (p : Pack) (hp : ℤ) (a : Attribute) : a.get (p.withHp hp) = a.get p := by
  cases a <;> rfl

/-- The other numbers are as they were when one is written. -/
theorem Attribute.get_set_nonneg {p : Pack} (h : ∀ a : Attribute, 0 ≤ a.get p) {value : ℤ} (hvalue : 0 ≤ value)
    (a b : Attribute) : 0 ≤ b.get (a.set p value) := by
  cases a <;> cases b <;> first
    | exact hvalue
    | exact h .mp
    | exact h .strength
    | exact h .armor
    | exact h .shield

/-- The world after the hit points of an entity have been written by `hp_add`. -/
def World.hurt (w : World) (e value : ℤ) : World :=
  w.setPack e ((w.pack e).withHp (min (max ((w.pack e).hp + value) 0) (w.pack e).maxhp))

/-- The scripts of the buffs of an entity do nothing when they are called at the breakpoint nil. -/
def World.Silent (w : World) (env : Env) (e : ℤ) : Prop :=
  ∀ b ∈ (w.pack e).buffs, (w.buffAt b).base.enableScript = true →
    ∃ f, (w.buffAt b).base.scriptFunc = some f ∧
      env.script f { entity := e, card := none, buff := some b, pick := none, bp := none } w = []

/-- A death of the entity hands over no turn and is noted: there is no match, or the entity is in it, it is
not done, and it is not its turn or it is the last of its side, so that its death ends the match. -/
def World.DiesAlone (w : World) (e : ℤ) : Prop :=
  ∃ s, w.scene = some s ∧ ∀ m, s.sceneMatch = some m →
    m.isdone = false ∧ m.sideVictory = none ∧ e ∈ m.entities ∧
    (m.roundEntityid = some e →
      ∀ i ∈ m.entities, i ≠ e → (w.entityAt i).side = (w.entityAt e).side → (w.entityAt i).death = true)

/-- What keeps a call from leaving the bounds. -/
def AttributeCall.Safe (env : Env) (e : ℤ) (w : World) : AttributeCall → Prop
  | hpAdd value =>
    (0 < value → (w.entityAt e).death = false) ∧
    (value < 0 → (w.hurt e value).Silent env e ∧
      ((w.entityAt e).death = false → (w.pack e).hp + value ≤ 0 → w.DiesAlone e))
  | maxhpAdd value => value ≠ 0 → max (w.pack e).hp 1 ≤ (w.pack e).maxhp + value
  | attributeAdd _ _ => True
  | addGold _ => True

/-- A sequence of calls on the entity `e`. -/
def attributeMachine (env : Env) (act : Act → Run Unit) (fuel : ℕ) (e : ℤ) : Machine World AttributeCall where
  step w call := some (endState (call.run env act fuel e) w)

section

variable {env : Env} {act : Act → Run Unit} {fuel : ℕ} {e : ℤ} {w : World}

/-! ### Parts of `hp_add` -/

/-- A loop whose passes do nothing does nothing. -/
theorem forM_apply_self {xs : List ℤ} {f : ℤ → Run Unit} (h : ∀ b ∈ xs, f b w = .ok () w) :
    xs.forM f w = .ok () w := by
  induction xs with
  | nil => rfl
  | cons b xs ih =>
    show (f b >>= fun _ => xs.forM f) w = _
    rw [bind_of_ok (h b (List.mem_cons_self ..))]
    exact ih fun c hc => h c (List.mem_cons_of_mem b hc)

theorem breakpoint_silent (h : w.Silent env e) : breakpoint env act e none none none w = .ok () w := by
  refine forM_apply_self fun b hb => ?_
  by_cases henable : b ∈ (w.pack e).buffs ∧ (w.buffAt b).base.enableScript = true
  · obtain ⟨f, hf, hscript⟩ := h b henable.1 henable.2
    show (if _ then callScript env act _ _ else pure ()) w = _
    rw [if_pos henable, hf]
    show (env.script f _ w).forM act w = _
    rw [hscript]
    rfl
  · show (if _ then callScript env act _ _ else pure ()) w = _
    rw [if_neg henable]
    rfl

/-- A death that nobody answers to: the entity is dead, and its pack is as it was. -/
theorem wp_toDie_alone (h : w.DiesAlone e) (hliving : (w.entityAt e).death = false) :
    wp (toDie env act fuel e) (fun _ w' => (w'.entityAt e).death = true ∧ w'.pack e = w.pack e)
      (fun _ _ => False) w := by
  obtain ⟨s, hscene, hmatch⟩ := h
  rw [toDie, wp_bind, wp_get]
  simp only [hliving, Bool.false_eq_true, if_false, wp_bind, wp_modifyEntity, wp_record, hscene]
  obtain ⟨u, hu⟩ : ∃ u, u = (w.setEntity e { w.entityAt e with death := true }).note [.died e (w.late e)] := ⟨_, rfl⟩
  have hself : u.entityAt e = { w.entityAt e with death := true } := by
    rw [hu]
    exact World.entityAt_setEntity_self ..
  have hother {i : ℤ} (hi : i ≠ e) : u.entityAt i = w.entityAt i := by
    rw [hu]
    exact World.entityAt_setEntity_of_ne w hi _
  have hdead : (u.entityAt e).death = true ∧ u.pack e = w.pack e := by
    rw [World.pack, hself]
    exact ⟨rfl, rfl⟩
  have hum : u.sceneMatch = s.sceneMatch := by
    rw [hu]
    show w.sceneMatch = _
    rw [World.sceneMatch, hscene]
    rfl
  rw [← hu, wp_ite]
  refine ⟨fun hsome => ?_, fun _ => hdead⟩
  obtain ⟨m, hm⟩ := Option.isSome_iff_exists.1 hsome
  obtain ⟨hdone, hvictory, hmem, hturn⟩ := hmatch m hm
  rw [hm] at hum
  rw [dieEntity, wp_bind, wp_get, wp_bind, wp_getMatch]
  refine ⟨fun m' hm' => ?_, fun hnone => by rw [hum] at hnone; cases hnone⟩
  obtain rfl := Option.some.inj (hum.symm.trans hm')
  simp only [wp_bind, wp_assertion, hdone, hmem, hdead.1, not_true_eq_false, false_implies, and_true, true_implies,
    wp_ite]
  have hends (side : Side) : wp (done side) (fun _ w' => (w'.entityAt e).death = true ∧ w'.pack e = w.pack e)
      (fun _ _ => False) u := by
    exact wp_done hum hdone (fun _ => hdead) fun hnot => hnot hvictory
  refine ⟨fun _ => hends _, fun hmore => ⟨fun hround => ?_, fun _ => hdead⟩⟩
  -- The last of its side does not die without ending the match.
  exfalso
  have hnone : u.livingEntitySize m (w.entityAt e).side = 0 := by
    rw [World.livingEntitySize, List.length_eq_zero_iff, List.filter_eq_nil_iff]
    intro i hi hliving
    obtain ⟨hside, hdeath⟩ : (u.entityAt i).side = (w.entityAt e).side ∧ (u.entityAt i).death = false := by
      simpa using hliving
    by_cases hie : i = e
    · rw [hie, hdead.1] at hdeath
      cases hdeath
    · rw [hother hie] at hside hdeath
      rw [hturn hround i hi hie hside] at hdeath
      cases hdeath
  refine hmore ?_
  cases hside : (w.entityAt e).side with
  | allies => exact .inl (hside ▸ hnone)
  | enemy => exact .inr (hside ▸ hnone)

/-! ### Every call -/

/-- The bounds depend on the numbers of the pack and on the death of the entity. -/
theorem World.Bounded.of_pack {w' : World} {p : Pack} (hpack : w'.pack e = p)
    (hhp : 0 ≤ p.hp ∧ p.hp ≤ p.maxhp) (hmaxhp : 1 ≤ p.maxhp) (hnumbers : ∀ a : Attribute, 0 ≤ a.get p)
    (hgold : 0 ≤ p.gold) (hdeath : (w'.entityAt e).death = true ↔ p.hp = 0) : w'.Bounded e := by
  subst hpack
  exact ⟨hhp, hmaxhp, hnumbers, hgold, hdeath⟩

theorem wp_hpAdd_safe (h : w.Bounded e) {value : ℤ} (hsafe : (AttributeCall.hpAdd value).Safe env e w) :
    wp (hpAdd env act fuel e value) (fun _ w' => w'.Bounded e) (fun _ _ => False) w := by
  obtain ⟨hheal, hhurt⟩ := hsafe
  obtain ⟨⟨hpos, hle⟩, hmaxhp, hnumbers, hgold, hdeath⟩ := h
  rw [hpAdd, wp_ite]
  refine ⟨fun _ => ⟨⟨hpos, hle⟩, hmaxhp, hnumbers, hgold, hdeath⟩, fun hzero => ?_⟩
  rw [wp_bind, wp_modifyPack]
  show wp _ _ _ (w.hurt e value)
  have hpack : (w.hurt e value).pack e = (w.pack e).withHp (min (max ((w.pack e).hp + value) 0) (w.pack e).maxhp) :=
    World.pack_setPack_self ..
  have hsame : ((w.hurt e value).entityAt e).death = (w.entityAt e).death := World.death_setPack ..
  -- The end of the call, where the scripts have done nothing.
  have hend : wp (do if (← getPack e).hp = 0 then toDie env act fuel e) (fun _ w' => w'.Bounded e) (fun _ _ => False)
      (w.hurt e value) := by
    rw [wp_bind, wp_getPack, wp_ite, hpack]
    refine ⟨fun hnone => ?_, fun hsome => ?_⟩
    · have hnone : min (max ((w.pack e).hp + value) 0) (w.pack e).maxhp = 0 := hnone
      have hvalue : value < 0 := by
        by_contra hnot
        have := hheal (by omega)
        rw [this] at hdeath
        have hne : (w.pack e).hp ≠ 0 := by simpa using hdeath
        omega
      obtain ⟨-, hdies⟩ := hhurt hvalue
      have hbounded {w' : World} (hdead : (w'.entityAt e).death = true) (hpack' : w'.pack e = (w.hurt e value).pack e) :
          w'.Bounded e := by
        refine World.Bounded.of_pack (hpack'.trans hpack) ?_ hmaxhp (fun a => ?_) hgold ?_
        · show 0 ≤ min (max ((w.pack e).hp + value) 0) (w.pack e).maxhp ∧ min _ _ ≤ (w.pack e).maxhp
          omega
        · rw [Pack.number_withHp]
          exact hnumbers a
        · rw [hdead]
          exact iff_of_true rfl hnone
      cases hcase : (w.entityAt e).death with
      | true =>
        rw [toDie, wp_bind, wp_get, wp_ite]
        refine ⟨fun _ => hbounded (hsame.trans hcase) rfl, fun hliving => absurd (hsame.trans hcase) hliving⟩
      | false =>
        obtain ⟨s, hscene, hmatch⟩ := hdies hcase (by omega)
        refine wp_mono (wp_toDie_alone ⟨s, hscene, fun m hm => ?_⟩ (hsame.trans hcase)) ?_ (fun _ _ h => h)
        · obtain ⟨hdone, hvictory, hmem, hturn⟩ := hmatch m hm
          refine ⟨hdone, hvictory, hmem, fun hround i hi hne hside => ?_⟩
          rw [World.hurt, World.side_setPack, World.side_setPack] at hside
          rw [World.hurt, World.death_setPack]
          exact hturn hround i hi hne hside
        · rintro _ w' ⟨hdead, hpack'⟩
          exact hbounded hdead hpack'
    · have hsome : ¬ min (max ((w.pack e).hp + value) 0) (w.pack e).maxhp = 0 := hsome
      refine World.Bounded.of_pack hpack ?_ hmaxhp (fun a => ?_) hgold ?_
      · show 0 ≤ min (max ((w.pack e).hp + value) 0) (w.pack e).maxhp ∧ min _ _ ≤ (w.pack e).maxhp
        omega
      · rw [Pack.number_withHp]
        exact hnumbers a
      · -- Hit points are left, so the entity had some before: the dead are not healed.
        have hliving : (w.entityAt e).death = false := by
          by_contra hdead
          rw [Bool.not_eq_false] at hdead
          have hgone := hdeath.1 hdead
          have hvalue : ¬ 0 < value := fun hvalue => by
            rw [hheal hvalue] at hdead
            cases hdead
          omega
        rw [hsame, hliving]
        exact iff_of_false Bool.false_ne_true hsome
  by_cases hvalue : value < 0
  · rw [if_pos hvalue]
    obtain ⟨hsilent, -⟩ := hhurt hvalue
    rw [wp_bind, wp_ok (breakpoint_silent hsilent)]
    exact hend
  · rw [if_neg hvalue]
    exact hend

theorem wp_maxhpAdd_safe (h : w.Bounded e) {value : ℤ} (hsafe : (AttributeCall.maxhpAdd value).Safe env e w) :
    wp (maxhpAdd e value) (fun _ w' => w'.Bounded e) (fun _ _ => False) w := by
  obtain ⟨⟨hpos, hle⟩, hmaxhp, hnumbers, hgold, hdeath⟩ := h
  rw [maxhpAdd, wp_ite]
  refine ⟨fun _ => ⟨⟨hpos, hle⟩, hmaxhp, hnumbers, hgold, hdeath⟩, fun hzero => ?_⟩
  have hroom : max (w.pack e).hp 1 ≤ (w.pack e).maxhp + value := hsafe hzero
  rw [wp_bind, wp_modifyPack, wp_bind, wp_getPack, World.pack_setPack_self, wp_assertion]
  refine ⟨fun _ => ?_, fun hnot => hnot ?_⟩
  · refine World.Bounded.of_pack (World.pack_setPack_self ..) ?_ ?_ (fun a => ?_) hgold ?_
    · show 0 ≤ (w.pack e).hp ∧ (w.pack e).hp ≤ max 0 ((w.pack e).maxhp + value)
      omega
    · show 1 ≤ max 0 ((w.pack e).maxhp + value)
      omega
    · exact (show 0 ≤ a.get (w.pack e) from hnumbers a).trans_eq (by cases a <;> rfl)
    · rw [World.death_setPack]
      exact hdeath
  · show 0 < max 0 ((w.pack e).maxhp + value)
    omega

theorem wp_attributeAdd_bounded (h : w.Bounded e) (a : Attribute) (value : ℤ) :
    wp (attributeAdd a e value) (fun _ w' => w'.Bounded e) (fun _ _ => False) w := by
  obtain ⟨hhp, hmaxhp, hnumbers, hgold, hdeath⟩ := h
  rw [attributeAdd, wp_ite]
  refine ⟨fun _ => ⟨hhp, hmaxhp, hnumbers, hgold, hdeath⟩, fun _ => ?_⟩
  rw [wp_bind, wp_getPack, wp_bind, wp_assertion]
  refine ⟨fun _ => ?_, fun hnot => hnot (hnumbers a)⟩
  rw [wp_modifyPack]
  refine World.Bounded.of_pack (World.pack_setPack_self ..) ?_ ?_ (fun b => ?_) ?_ ?_
  · cases a <;> exact hhp
  · cases a <;> exact hmaxhp
  · exact Attribute.get_set_nonneg hnumbers (le_max_left ..) a b
  · cases a <;> exact hgold
  · rw [World.death_setPack]
    cases a <;> exact hdeath

theorem wp_addGold_bounded (h : w.Bounded e) (value : ℤ) :
    wp (addGold e value) (fun _ w' => w'.Bounded e) (fun _ _ => False) w := by
  obtain ⟨hhp, hmaxhp, hnumbers, hgold, hdeath⟩ := h
  rw [addGold, wp_bind, wp_getPack, wp_bind, wp_assertion]
  refine ⟨fun _ => ?_, fun hnot => hnot hgold⟩
  rw [wp_bind, wp_modifyPack, wp_bind, wp_getPack, wp_notify_tell]
  refine World.Bounded.of_pack (World.pack_setPack_self ..) hhp hmaxhp (fun a => ?_) (le_max_left ..) ?_
  · exact (show 0 ≤ a.get (w.pack e) from hnumbers a).trans_eq (by cases a <;> rfl)
  · show ((w.setPack e _).entityAt e).death = true ↔ _
    rw [World.death_setPack]
    exact hdeath

/-- A safe call returns, and the numbers are within their bounds. -/
theorem AttributeCall.wp_run (h : w.Bounded e) {call : AttributeCall} (hsafe : call.Safe env e w) :
    wp (call.run env act fuel e) (fun _ w' => w'.Bounded e) (fun _ _ => False) w := by
  cases call with
  | hpAdd value => exact wp_hpAdd_safe h hsafe
  | maxhpAdd value => exact @wp_maxhpAdd_safe env e w h value hsafe
  | attributeAdd a value => exact wp_attributeAdd_bounded h a value
  | addGold value => exact wp_addGold_bounded h value

/-- **The numbers stay within their bounds** along every sequence of calls that are safe where they are
made, and such calls do not raise. -/
theorem attributes_bounded_of_safe {w' : World} {calls : List AttributeCall} (h : w.Bounded e)
    (hsafe : (attributeMachine env act fuel e).Guarded (fun w call => call.Safe env e w) w calls)
    (hrun : (attributeMachine env act fuel e).run w calls = some w') :
    w'.Bounded e ∧ ∀ call : AttributeCall, call.Safe env e w' → Returns (call.run env act fuel e) w' := by
  have hbounded : w'.Bounded e := by
    refine Machine.invariant_of_guarded (I := fun w => w.Bounded e) (fun u call u' hu hcall hstep => ?_) h hsafe hrun
    cases hstep
    refine endState_of_wp (wp_mono (AttributeCall.wp_run hu hcall) (fun _ _ h => h) ?_)
    exact fun _ _ hfalse => hfalse.elim
  refine ⟨hbounded, fun call hcall => ?_⟩
  exact wp_mono (AttributeCall.wp_run hbounded hcall) (fun _ _ _ => trivial) (fun _ _ h => h)

end

/-- An entity with ten of ten hit points. -/
def tenOfTen : World := World.setPack {} 0 { hp := 10, maxhp := 10 }

theorem tenOfTen_bounded : tenOfTen.Bounded 0 := by
  refine ⟨by decide, by decide, fun a => ?_, by decide, by decide⟩
  cases a <;> decide

theorem attributes_bounded_of_safe_tenOfTen :
    ∃ w', (attributeMachine plainEnv (fun _ => pure ()) 0 0).run tenOfTen [.maxhpAdd 5, .hpAdd (-3)] = some w' ∧
      w'.Bounded 0 ∧ ∀ call : AttributeCall, call.Safe plainEnv 0 w' →
        Returns (call.run plainEnv (fun _ => pure ()) 0 0) w' := by
  obtain ⟨w', hrun⟩ : ∃ w', (attributeMachine plainEnv (fun _ => pure ()) 0 0).run tenOfTen
      [.maxhpAdd 5, .hpAdd (-3)] = some w' := ⟨_, rfl⟩
  refine ⟨w', hrun, attributes_bounded_of_safe tenOfTen_bounded ?_ hrun⟩
  refine ⟨fun _ => by decide, fun u hu => ?_⟩
  cases hu
  refine ⟨⟨fun h => absurd h (by decide), fun _ => ⟨fun b hb => ?_, fun _ h => ?_⟩⟩, fun _ _ => trivial⟩
  · cases hb
  · exact absurd h (by decide)

/-- **They do not stay within them in general**: lowering the maximum by five leaves an entity with ten of
five hit points. -/
theorem maxhpAdd_leaves_hp :
    tenOfTen.Bounded 0 ∧ wp (maxhpAdd 0 (-5)) (fun _ w' => ¬ w'.Bounded 0) (fun _ _ => False) tenOfTen := by
  refine ⟨tenOfTen_bounded, ?_⟩
  have hbad : wp (maxhpAdd 0 (-5)) (fun _ w' => (w'.pack 0).maxhp < (w'.pack 0).hp) (fun _ _ => False) tenOfTen := by
    decide
  exact wp_mono hbad (fun _ w' hlt hbounded => absurd hbounded.hp.2 (not_le.2 hlt)) (fun _ _ h => h)

end Slam.Game
