import Slam.Game.BuffTable
import Slam.Game.Bounds

/-!
# What a hit does

`damageOne` scales the attack, lets the buff `UNREAL` reduce it to one point, lets armor take what it can and takes the rest from
the hit points. `Struck` says what is left of the buffs and hit points after that.

No buff answers to the hit (`World.Mute`), so every operation on a buff is one change of the world:
`lowered` and `without` are these changes, and a search in the new table finds what it is to find. A hit that
takes the last hit points is reported to `to_die`, which may hand over the turn; this leaves hit points and buffs as
they are. `damageOne` raises only if `to_die` does.
-/

namespace Slam.Game

open Raising Track

variable {env : Env} {act : Act → Run Unit} {fuel : ℕ} {e b baseid : ℤ} {w : World}

/-! ### Buffs that do not answer -/

/-- The scripts of all buffs do nothing. -/
def World.Mute (w : World) (env : Env) : Prop :=
  ∀ e, ∀ b ∈ (w.pack e).buffs, (w.buffAt b).base.enableScript = true →
    ∃ f, (w.buffAt b).base.scriptFunc = some f ∧ ∀ call u, call.buff = some b → env.script f call u = []

theorem World.Mute.congr {w' : World} (h : w.Mute env) (hbuffs : ∀ e, (w'.pack e).buffs ⊆ (w.pack e).buffs)
    (hbase : ∀ b, (w'.buffAt b).base = (w.buffAt b).base) : w'.Mute env := by
  intro e b hb
  rw [hbase]
  exact h e b (hbuffs e hb)

/-- A breakpoint that is not about a card does nothing. -/
theorem breakpoint_mute (h : w.Mute env) (e : ℤ) (bp : Option BreakPoint) : breakpoint env act e none none bp w = .ok () w := by
  refine forM_apply_self fun b hb => ?_
  show (if _ then callScript env act _ _ else pure ()) w = _
  split_ifs with henable
  · obtain ⟨f, hf, hscript⟩ := h e b henable.1 henable.2
    rw [hf]
    show (env.script f _ w).forM act w = _
    rw [hscript _ _ rfl]
    rfl
  · rfl

/-- Hit points and buffs are as they were. -/
structure Unscathed (w w' : World) : Prop where
  hp : ∀ e, (w'.pack e).hp = (w.pack e).hp
  buffs : ∀ e, (w'.pack e).buffs = (w.pack e).buffs
  buffAt : w'.buffAt = w.buffAt

theorem Unscathed.mute {w' : World} (h : Unscathed w w') (hw : w.Mute env) : w'.Mute env :=
  hw.congr (fun e _ hb => h.buffs e ▸ hb) fun b => by rw [h.buffAt]

/-- The track of programs that leave hit points and buffs alone, as long as no buff answers. -/
def muteTrack (env : Env) : Track Fault World where
  ok w w' := w.Mute env → Unscathed w w'
  error _ _ _ := True
  refl _ _ := ⟨fun _ => rfl, fun _ => rfl, rfl⟩
  trans h h' hw := by
    have hu := h hw
    have hv := h' (hu.mute hw)
    exact ⟨fun e => (hv.hp e).trans (hu.hp e), fun e => (hv.buffs e).trans (hu.buffs e), hv.buffAt.trans hu.buffAt⟩
  trans_error _ _ := trivial

theorem mute_aside {α : Type} {x : Run α} (h : asideTrack.Follows x) : (muteTrack env).Follows x :=
  h.mono (fun _ _ hok _ => ⟨hok.hp, hok.buffs, hok.buffAt⟩) fun _ _ _ _ => trivial

theorem mute_breakpoint (e : ℤ) (bp : Option BreakPoint) : (muteTrack env).Follows (breakpoint env act e none none bp) := by
  intro w
  by_cases hw : w.Mute env
  · rw [wp_ok (breakpoint_mute hw e bp)]
    exact (muteTrack env).refl w
  · exact wp_mono (wp_top _ w) (fun _ _ _ h => absurd h hw) fun _ _ _ => trivial

/-- The turn of one who is dead is ended without a round end of its own. -/
theorem mute_matchRoundEnd (hdead : (w.entityAt e).death = true) :
    wp (matchRoundEnd env act fuel e) (fun _ w' => (muteTrack env).ok w w') (fun _ _ => True) w := by
  have hover : (muteTrack env).Follows (do
      let m ← getMatch
      nextRoundEntity
      record (.turnEnd e (m.isdone || m.roundEntityid ≠ some e))
      beginRound env act .roundEnd) :=
    follows_handOver_of mute_aside mute_breakpoint e
  rw [matchRoundEnd, wp_bind, wp_getMatch]
  refine ⟨fun m _ => ?_, fun _ => trivial⟩
  rw [wp_bind, wp_assertion]
  refine ⟨fun _ => ?_, fun _ => trivial⟩
  rw [wp_ite]
  refine ⟨fun _ => (muteTrack env).refl w, fun _ => ?_⟩
  split_ifs
  · rw [wp_bind, roundEnd, wp_bind, wp_get, if_pos hdead]
    exact hover w
  · exact hover w

/-- A death leaves hit points and buffs alone. -/
theorem mute_toDie (e : ℤ) : (muteTrack env).Follows (toDie env act fuel e) := by
  intro w
  rw [toDie, wp_bind, wp_get, wp_ite]
  refine ⟨fun _ => (muteTrack env).refl w, fun _ => ?_⟩
  rw [wp_bind, wp_modifyEntity, wp_bind, wp_record]
  obtain ⟨u, hu⟩ : ∃ u, u = (w.setEntity e { w.entityAt e with death := true }).note [.died e (w.late e)] := ⟨_, rfl⟩
  have hdead : (u.entityAt e).death = true := by
    rw [hu]
    show ((w.setEntity e _).entityAt e).death = true
    rw [World.entityAt_setEntity_self]
  have hpack (i : ℤ) : u.pack i = w.pack i := by
    rw [hu]
    show ((w.setEntity e _).entityAt i).pack = _
    by_cases hi : i = e
    · rw [hi, World.entityAt_setEntity_self, World.pack]
    · rw [World.entityAt_setEntity_of_ne w hi, World.pack]
  have hok : (muteTrack env).ok w u := fun _ => ⟨fun i => by rw [hpack], fun i => by rw [hpack], by rw [hu]; rfl⟩
  rw [← hu]
  split
  · trivial
  · refine wp_trans hok ?_
    rw [wp_ite]
    refine ⟨fun _ => ?_, fun _ => (muteTrack env).refl u⟩
    rw [dieEntity, wp_bind, wp_get, wp_bind, wp_getMatch]
    refine ⟨fun m _ => ?_, fun _ => trivial⟩
    rw [wp_bind, wp_assertion]
    refine ⟨fun _ => ?_, fun _ => trivial⟩
    rw [wp_bind, wp_assertion]
    refine ⟨fun _ => ?_, fun _ => trivial⟩
    rw [wp_bind, wp_assertion]
    refine ⟨fun _ => ?_, fun _ => trivial⟩
    rw [wp_ite]
    refine ⟨fun _ => mute_aside (aside_done _) u, fun _ => ?_⟩
    rw [wp_ite]
    exact ⟨fun _ => mute_matchRoundEnd hdead, fun _ => (muteTrack env).refl u⟩

/-! ### Removing a buff and lowering its layers -/

/-- The world without a buff of an entity. -/
def World.without (w : World) (e b : ℤ) : World := w.setPack e { w.pack e with buffs := (w.pack e).buffs.erase b }

/-- The world after a value has been added to the layers of a buff of an entity; at zero it is gone. -/
def World.lowered (w : World) (e b value : ℤ) : World :=
  if ((w.buffAt b).addLayers value).layers = 0 then (w.setBuff b ((w.buffAt b).addLayers value)).without e b
  else w.setBuff b ((w.buffAt b).addLayers value)

theorem World.mem_buffs_without (htable : w.BuffTable e) {c : ℤ} :
    c ∈ ((w.without e b).pack e).buffs ↔ c ∈ (w.pack e).buffs ∧ c ≠ b := by
  rw [World.without, World.pack_setPack_self, htable.nodup.mem_erase_iff, and_comm]

theorem World.mute_without (h : w.Mute env) (e b : ℤ) : (w.without e b).Mute env := by
  refine h.congr (fun i c hc => ?_) fun _ => rfl
  by_cases hi : i = e
  · rw [hi, World.without, World.pack_setPack_self] at hc
    exact hi ▸ List.mem_of_mem_erase hc
  · rwa [World.without, World.pack_setPack_of_ne w hi] at hc

theorem World.base_setBuff_addLayers (w : World) (b value c : ℤ) :
    ((w.setBuff b ((w.buffAt b).addLayers value)).buffAt c).base = (w.buffAt c).base := by
  by_cases hc : c = b
  · rw [hc, World.buffAt_setBuff_self, Buff.addLayers]
  · rw [World.buffAt_setBuff_of_ne w hc]

theorem World.baseid_setBuff_addLayers (w : World) (b value c : ℤ) :
    ((w.setBuff b ((w.buffAt b).addLayers value)).buffAt c).baseid = (w.buffAt c).baseid := by
  by_cases hc : c = b
  · rw [hc, World.buffAt_setBuff_self, Buff.addLayers]
  · rw [World.buffAt_setBuff_of_ne w hc]

theorem World.mute_setBuff (h : w.Mute env) (b value : ℤ) : (w.setBuff b ((w.buffAt b).addLayers value)).Mute env :=
  h.congr (fun _ _ hc => hc) (w.base_setBuff_addLayers b value)

/-- `buff_remove`, where no buff answers. -/
theorem buffRemove_mute (h : w.Mute env) (hb : b ∈ (w.pack e).buffs) : buffRemove env act e b w = .ok () (w.without e b) := by
  refine eq_ok_of_wp ?_
  rw [buffRemove, wp_bind, wp_getPack, wp_bind, wp_assertion]
  refine ⟨fun _ => ?_, fun hnot => hnot hb⟩
  rw [wp_bind, wp_ok (breakpoint_mute h e none), wp_bind, wp_getPack, wp_ite]
  refine ⟨fun hnot => hnot hb, fun _ => ?_⟩
  rw [wp_bind, wp_modifyPack]
  exact (wp_ok (breakpoint_mute (World.mute_without h e b) e none)).2 rfl

/-- `layers_add` and, at zero, `buff_remove`: what `modifyLayers` and `wearArmor` do. -/
theorem lower_mute (h : w.Mute env) (hb : b ∈ (w.pack e).buffs) (value : ℤ) :
    (do
      layersAdd b value
      if ((← get).buffAt b).layers = 0 then buffRemove env act e b : Run Unit) w = .ok () (w.lowered e b value) := by
  refine eq_ok_of_wp ?_
  rw [wp_bind, layersAdd, wp_modify, wp_bind, wp_get, World.buffAt_setBuff_self, World.lowered]
  split_ifs
  · rw [wp_ok (buffRemove_mute (w.mute_setBuff h b value) hb)]
  · rfl

theorem modifyLayers_mute (h : w.Mute env) (htable : w.BuffTable e) (hb : b ∈ (w.pack e).buffs) (value : ℤ) :
    modifyLayers env act b value w = .ok () (w.lowered e b value) := by
  have hentity : ((w.setBuff b ((w.buffAt b).addLayers value)).buffAt b).entity = e := by
    rw [World.buffAt_setBuff_self]
    exact htable.owned b hb
  rw [← lower_mute h hb value, modifyLayers]
  show (if _ then buffRemove env act ((w.setBuff b _).buffAt b).entity b else pure ()) _ = _
  rw [hentity]
  rfl

theorem tables_without (h : w.BuffTables) (e b : ℤ) : (w.without e b).BuffTables := (tablesKept_erase h e b).tables

theorem tables_lowered (h : w.BuffTables) (e b value : ℤ) : (w.lowered e b value).BuffTables := by
  have hset : (w.setBuff b ((w.buffAt b).addLayers value)).BuffTables := (table_layersAdd b value w h).tables
  rw [World.lowered]
  split_ifs
  · exact tables_without hset e b
  · exact hset

theorem mute_lowered (h : w.Mute env) (e b value : ℤ) : (w.lowered e b value).Mute env := by
  rw [World.lowered]
  split_ifs
  · exact World.mute_without (w.mute_setBuff h b value) e b
  · exact w.mute_setBuff h b value

/-! ### What a search finds afterwards -/

/-- A search finds the buff of the base id. -/
theorem World.buffFind_eq_some (h : w.BuffTable e) :
    w.buffFind env e baseid = some b ↔ b ∈ (w.pack e).buffs ∧ (w.buffAt b).baseid = baseid := by
  constructor
  · intro hfind
    exact ⟨env.mem_pairs.1 (List.mem_of_find?_eq_some hfind), by simpa using List.find?_some hfind⟩
  · rintro ⟨hb, hbaseid⟩
    cases hfind : w.buffFind env e baseid with
    | none => exact absurd hbaseid (World.buffFind_eq_none.1 hfind b hb)
    | some c =>
      have hc : (w.buffAt c).baseid = baseid := by simpa using List.find?_some hfind
      rw [h.unique c (env.mem_pairs.1 (List.mem_of_find?_eq_some hfind)) b hb (hc.trans hbaseid.symm)]

theorem World.getBuff_eq_some {l : ℤ} (h : w.BuffTable e) (hb : b ∈ (w.pack e).buffs) (hbaseid : (w.buffAt b).baseid = baseid)
    (hl : (w.buffAt b).layers = l) : w.getBuff env e baseid = (some b, l) := by
  rw [World.getBuff, (World.buffFind_eq_some h).2 ⟨hb, hbaseid⟩]
  exact congrArg (Prod.mk _) hl

theorem World.getBuff_eq_none (h : ∀ c ∈ (w.pack e).buffs, (w.buffAt c).baseid ≠ baseid) : w.getBuff env e baseid = (none, 0) := by
  rw [World.getBuff, World.buffFind_eq_none.2 h]

/-- A search reads the buffs of the entity only. -/
theorem World.getBuff_congr {w' : World} (hbuffs : (w'.pack e).buffs = (w.pack e).buffs) (hbuffAt : w'.buffAt = w.buffAt)
    (baseid : ℤ) : w'.getBuff env e baseid = w.getBuff env e baseid := by
  rw [World.getBuff, World.getBuff, World.buffFind, World.buffFind, hbuffs, hbuffAt]

/-- The buffs of another base id are found as before. -/
theorem World.getBuff_of_ne {w' : World} (h : w.BuffTable e) (h' : w'.BuffTable e)
    (hmem : ∀ c, (w.buffAt c).baseid = baseid → (c ∈ (w'.pack e).buffs ↔ c ∈ (w.pack e).buffs))
    (hbaseid : ∀ c, (w'.buffAt c).baseid = (w.buffAt c).baseid)
    (hlayers : ∀ c, (w.buffAt c).baseid = baseid → (w'.buffAt c).layers = (w.buffAt c).layers) :
    w'.getBuff env e baseid = w.getBuff env e baseid := by
  cases hfind : w.buffFind env e baseid with
  | none =>
    have hnone := World.buffFind_eq_none.1 hfind
    rw [World.getBuff_eq_none hnone, World.getBuff_eq_none]
    intro c hc hcb
    rw [hbaseid] at hcb
    exact hnone c ((hmem c hcb).1 hc) hcb
  | some c =>
    obtain ⟨hc, hcb⟩ := (World.buffFind_eq_some h).1 hfind
    rw [World.getBuff_eq_some h hc hcb rfl]
    exact World.getBuff_eq_some h' ((hmem c hcb).2 hc) ((hbaseid c).trans hcb) (hlayers c hcb)

theorem World.getBuff_without_self (h : w.BuffTable e) (hb : b ∈ (w.pack e).buffs) :
    (w.without e b).getBuff env e (w.buffAt b).baseid = (none, 0) := by
  refine World.getBuff_eq_none fun c hc hcb => ?_
  obtain ⟨hc, hne⟩ := (World.mem_buffs_without h).1 hc
  exact hne (h.unique c hc b hb hcb)

theorem World.getBuff_without_of_ne (h : w.BuffTables) (hne : baseid ≠ (w.buffAt b).baseid) :
    (w.without e b).getBuff env e baseid = w.getBuff env e baseid := by
  refine World.getBuff_of_ne (h e) (tables_without h e b e) (fun c hc => ?_) (fun _ => rfl) fun _ _ => rfl
  rw [World.mem_buffs_without (h e)]
  refine and_iff_left ?_
  rintro rfl
  exact hne hc.symm

/-- The buff itself has its new layers, or it is gone. -/
theorem World.getBuff_lowered_self (h : w.BuffTables) (hb : b ∈ (w.pack e).buffs) (value : ℤ) :
    (w.lowered e b value).getBuff env e (w.buffAt b).baseid =
      if ((w.buffAt b).addLayers value).layers = 0 then (none, 0) else (some b, ((w.buffAt b).addLayers value).layers) := by
  have hset : (w.setBuff b ((w.buffAt b).addLayers value)).BuffTables := (table_layersAdd b value w h).tables
  have hbaseid := w.baseid_setBuff_addLayers b value b
  rw [World.lowered]
  split_ifs
  · rw [← hbaseid]
    exact World.getBuff_without_self (hset e) hb
  · refine World.getBuff_eq_some (hset e) hb hbaseid ?_
    rw [World.buffAt_setBuff_self]

theorem World.getBuff_lowered_of_ne (h : w.BuffTables) (hne : baseid ≠ (w.buffAt b).baseid) (value : ℤ) :
    (w.lowered e b value).getBuff env e baseid = w.getBuff env e baseid := by
  have hset : (w.setBuff b ((w.buffAt b).addLayers value)).BuffTables := (table_layersAdd b value w h).tables
  have hsame : (w.setBuff b ((w.buffAt b).addLayers value)).getBuff env e baseid = w.getBuff env e baseid := by
    refine World.getBuff_of_ne (h e) (hset e) (fun _ _ => Iff.rfl) (w.baseid_setBuff_addLayers b value) fun c hc => ?_
    rw [World.buffAt_setBuff_of_ne w]
    rintro rfl
    exact hne hc.symm
  rw [World.lowered]
  split_ifs
  · rw [World.getBuff_without_of_ne hset (by rwa [w.baseid_setBuff_addLayers]), hsame]
  · exact hsame

/-! ### The hit -/

/-- The target of a hit: it lives, its numbers and buffs are in order, the row of `ED` has a value if it carries the buff, and no
buff answers. -/
structure World.Target (w : World) (env : Env) (e : ℤ) (ed : ℚ) : Prop where
  living : (w.entityAt e).death = false
  hp : 0 ≤ (w.pack e).hp ∧ (w.pack e).hp ≤ (w.pack e).maxhp
  ed : w.getBuffLayerValue env e Stats.ed = some ed
  tables : w.BuffTables
  mute : w.Mute env

/-- What arrives at the armor of an attack that has been scaled: one point if the target has layers of `UNREAL`. -/
def World.hit (w : World) (env : Env) (e full : ℤ) : ℤ :=
  if 1 ≤ w.getBuffLayers env e Stats.unreal ∧ 1 < full then 1 else full

/-- What `damageOne` returns. -/
def World.dealt (w : World) (env : Env) (e hit : ℤ) (damageType : CardDamageType) : ℤ :=
  if damageType = .physical then max (hit - w.getBuffLayers env e Stats.arm) 0 else hit

/-- The layers of armor that are left of a physical hit. A hit of less than zero adds some, as far as the row allows. -/
def World.armorLeft (w : World) (env : Env) (e hit : ℤ) : ℤ :=
  match w.getBuff env e Stats.arm with
  | (none, _) => 0
  | (some b, armor) => min (max (armor - hit) 0) (w.buffAt b).base.maxLayers

/-- The buffs after a hit. -/
structure Worn (env : Env) (w : World) (e full : ℤ) (damageType : CardDamageType) (w' : World) : Prop where
  unreal : w'.getBuffLayers env e Stats.unreal = w.getBuffLayers env e Stats.unreal -
    if 1 ≤ w.getBuffLayers env e Stats.unreal ∧ 1 < full then 1 else 0
  armor : damageType = .physical → w'.getBuffLayers env e Stats.arm = w.armorLeft env e (w.hit env e full) ∧
    (w'.buffFind env e Stats.arm = none ↔ w.armorLeft env e (w.hit env e full) = 0)
  other : damageType ≠ .physical → w'.getBuff env e Stats.arm = w.getBuff env e Stats.arm

/-- **What a hit leaves of its target.** -/
structure Struck (env : Env) (w : World) (e full : ℤ) (damageType : CardDamageType) (w' : World) : Prop extends
    Worn env w e full damageType w' where
  hp : (w'.pack e).hp = max 0 ((w.pack e).hp - max (w.dealt env e (w.hit env e full) damageType) 0)

/-- What the reduction by `UNREAL` keeps: hit points, armor, and that no buff answers. -/
structure Reduced (env : Env) (w : World) (e full : ℤ) (w' : World) : Prop where
  mute : w'.Mute env
  tables : w'.BuffTables
  hp : (w'.pack e).hp = (w.pack e).hp
  maxhp : (w'.pack e).maxhp = (w.pack e).maxhp
  arm : w'.getBuff env e Stats.arm = w.getBuff env e Stats.arm
  base : ∀ c, (w'.buffAt c).base = (w.buffAt c).base
  unreal : w'.getBuffLayers env e Stats.unreal = w.getBuffLayers env e Stats.unreal -
    if 1 ≤ w.getBuffLayers env e Stats.unreal ∧ 1 < full then 1 else 0

theorem World.pack_lowered (w : World) (e b value : ℤ) :
    ((w.lowered e b value).pack e).hp = (w.pack e).hp ∧ ((w.lowered e b value).pack e).maxhp = (w.pack e).maxhp := by
  rw [World.lowered]
  split_ifs
  · rw [World.without, World.pack_setPack_self]
    exact ⟨rfl, rfl⟩
  · exact ⟨rfl, rfl⟩

theorem World.base_lowered (w : World) (e b value c : ℤ) : ((w.lowered e b value).buffAt c).base = (w.buffAt c).base := by
  rw [World.lowered]
  split_ifs <;> exact w.base_setBuff_addLayers b value c

/-- Some layers are taken of a buff that has as many. -/
theorem Buff.layers_addLayers_neg {x : Buff} {n : ℤ} (hn : n ≤ x.layers) : (x.addLayers (-n)).layers = min (x.layers - n) x.base.maxLayers := by
  simp only [addLayers]
  split_ifs <;> omega

theorem unrealAttack_mute (hmute : w.Mute env) (htables : w.BuffTables) (full : ℤ) :
    ∃ w', unrealAttack env act e full w = .ok (w.hit env e full) w' ∧ Reduced env w e full w' := by
  have hget : (get : Run World) w = .ok w w := rfl
  have hsame (hnot : ¬ (1 ≤ w.getBuffLayers env e Stats.unreal ∧ 1 < full)) : Reduced env w e full w :=
    ⟨hmute, htables, rfl, rfl, rfl, fun _ => rfl, by rw [if_neg hnot, sub_zero]⟩
  cases hfind : w.buffFind env e Stats.unreal with
  | none =>
    have hnone : w.getBuff env e Stats.unreal = (none, 0) := by rw [World.getBuff, hfind]
    have hnot : ¬ (1 ≤ w.getBuffLayers env e Stats.unreal ∧ 1 < full) := by
      rw [World.getBuffLayers, hnone]
      omega
    refine ⟨w, ?_, hsame hnot⟩
    rw [World.hit, if_neg hnot, unrealAttack]
    rw [bind_of_ok hget]
    simp only [hnone]
    rfl
  | some b =>
    obtain ⟨hb, hbaseid⟩ := (World.buffFind_eq_some (htables e)).1 hfind
    have hsome : w.getBuff env e Stats.unreal = (some b, (w.buffAt b).layers) := World.getBuff_eq_some (htables e) hb hbaseid rfl
    have hlayers : w.getBuffLayers env e Stats.unreal = (w.buffAt b).layers := by rw [World.getBuffLayers, hsome]
    have hrun : unrealAttack env act e full w = (if 1 ≤ (w.buffAt b).layers ∧ 1 < full then do
        modifyLayers env act b (-1)
        return 1
      else return full : Run ℤ) w := by
      rw [unrealAttack]
      rw [bind_of_ok hget]
      simp only [hsome]
    rw [hrun, World.hit, hlayers]
    by_cases hunreal : 1 ≤ (w.buffAt b).layers ∧ 1 < full
    · have hne : Stats.arm ≠ (w.buffAt b).baseid := by
        rw [hbaseid]
        decide
      have hlow : ((w.buffAt b).addLayers (-1)).layers = (w.buffAt b).layers - 1 := by
        rw [Buff.layers_addLayers_neg hunreal.1]
        exact min_eq_left (by have := (htables e).most b hb; omega)
      refine ⟨w.lowered e b (-1), ?_, mute_lowered hmute e b _, tables_lowered htables e b _, (w.pack_lowered e b _).1,
        (w.pack_lowered e b _).2, World.getBuff_lowered_of_ne htables hne _, w.base_lowered e b _, ?_⟩
      · rw [if_pos hunreal, if_pos hunreal, bind_of_ok (modifyLayers_mute hmute (htables e) hb (-1))]
        rfl
      · rw [hlayers, if_pos hunreal, World.getBuffLayers, ← hbaseid, World.getBuff_lowered_self htables hb, hlow]
        split_ifs with hzero
        · exact hzero.symm
        · rfl
    · refine ⟨w, ?_, hsame (hlayers ▸ hunreal)⟩
      rw [if_neg hunreal, if_neg hunreal]
      rfl

/-- A loss of nothing. -/
theorem unscathed_hurt_zero (hhp : 0 ≤ (w.pack e).hp ∧ (w.pack e).hp ≤ (w.pack e).maxhp) : Unscathed (w.hurt e 0) w := by
  have hpack : (w.hurt e 0).pack e = (w.pack e).withHp (min (max ((w.pack e).hp + 0) 0) (w.pack e).maxhp) :=
    World.pack_setPack_self ..
  refine ⟨fun i => ?_, fun i => ?_, rfl⟩ <;> by_cases hi : i = e
  · rw [hi, hpack]
    show _ = min (max ((w.pack e).hp + 0) 0) (w.pack e).maxhp
    omega
  · rw [World.hurt, World.pack_setPack_of_ne w hi]
  · rw [hi, hpack]
    rfl
  · rw [World.hurt, World.pack_setPack_of_ne w hi]

/-- The hit points that are lost, and the death of a target that has none left. -/
theorem wp_loseHp_mute (hmute : w.Mute env) (hhp : 0 ≤ (w.pack e).hp ∧ (w.pack e).hp ≤ (w.pack e).maxhp) (amount : ℤ) :
    wp (loseHp env act fuel e amount) (fun _ w' => Unscathed (w.hurt e (-max amount 0)) w')
      (fun f w' => (w.pack e).hp ≤ amount ∧ toDie env act fuel e (w.hurt e (-max amount 0)) = .error f w') w := by
  have hpack (value : ℤ) : (w.hurt e value).pack e = (w.pack e).withHp (min (max ((w.pack e).hp + value) 0) (w.pack e).maxhp) :=
    World.pack_setPack_self ..
  rw [loseHp, wp_ite]
  constructor
  · intro hamount
    rw [max_eq_right hamount, neg_zero]
    exact unscathed_hurt_zero hhp
  · intro hamount
    have hpos : 0 < amount := not_le.1 hamount
    rw [max_eq_left hpos.le]
    obtain ⟨u, hu⟩ : ∃ u, u = w.hurt e (-amount) := ⟨_, rfl⟩
    have hmute' : u.Mute env := by
      refine hmute.congr (fun i b hb => ?_) fun b => by rw [hu]; rfl
      by_cases hi : i = e
      · rw [hi, hu, hpack] at hb
        exact hi ▸ hb
      · rwa [hu, World.hurt, World.pack_setPack_of_ne w hi] at hb
    rw [hpAdd, if_neg (by omega), wp_bind, wp_modifyPack]
    show wp _ _ _ (w.hurt e (-amount))
    rw [← hu, if_pos (by omega), wp_bind, wp_ok (breakpoint_mute hmute' e none), wp_bind, wp_getPack, wp_ite]
    constructor
    · intro hzero
      rw [hu, hpack] at hzero
      have hlost : (w.pack e).hp ≤ amount := by
        have hzero : min (max ((w.pack e).hp + -amount) 0) (w.pack e).maxhp = 0 := hzero
        omega
      cases hdie : toDie env act fuel e u with
      | ok a w' =>
        have hok := @mute_toDie env act fuel e u
        rw [wp_ok hdie] at hok ⊢
        exact hok hmute'
      | error f w' =>
        rw [wp_error hdie]
        exact ⟨hlost, rfl⟩
    · exact fun _ => ⟨fun _ => rfl, fun _ => rfl, rfl⟩

/-- The attack, scaled by the value of `ED`. -/
def scaledAttack (attack : ℤ) (ed : ℚ) : ℤ := ⌊(attack : ℚ) * (1 + ed)⌋

/-- A target whose buffs are as a hit leaves them, before it loses hit points. -/
structure Guarded (env : Env) (w : World) (e full : ℤ) (damageType : CardDamageType) (w' : World) : Prop extends
    Worn env w e full damageType w' where
  mute : w'.Mute env
  hp : (w'.pack e).hp = (w.pack e).hp
  maxhp : (w'.pack e).maxhp = (w.pack e).maxhp

section Armor

variable {full : ℤ} {w₁ : World}

theorem Reduced.guarded_other (hr : Reduced env w e full w₁) {damageType : CardDamageType} (hother : damageType ≠ .physical) :
    Guarded env w e full damageType w₁ :=
  ⟨⟨hr.unreal, fun h => absurd h hother, fun _ => hr.arm⟩, hr.mute, hr.hp, hr.maxhp⟩

/-- There is no armor. -/
theorem Reduced.guarded_none (hr : Reduced env w e full w₁) {l : ℤ} (hnone : w.getBuff env e Stats.arm = (none, l)) :
    Guarded env w e full .physical w₁ := by
  have hl : l = 0 ∧ w₁.buffFind env e Stats.arm = none := by
    have harm := hr.arm.trans hnone
    rw [World.getBuff] at harm
    cases hfind : w₁.buffFind env e Stats.arm <;> rw [hfind] at harm <;> cases harm
    exact ⟨rfl, rfl⟩
  have hleft : w.armorLeft env e (w.hit env e full) = 0 := by rw [World.armorLeft, hnone]
  refine ⟨⟨hr.unreal, fun _ => ?_, fun h => absurd rfl h⟩, hr.mute, hr.hp, hr.maxhp⟩
  rw [World.getBuffLayers, hr.arm, hnone, hleft, hl.2, hl.1]
  exact ⟨rfl, iff_of_true rfl rfl⟩

/-- What is known of the armor once the attack has been reduced. -/
theorem Reduced.mem_arm (hr : Reduced env w e full w₁) {l : ℤ} (hsome : w.getBuff env e Stats.arm = (some b, l)) :
    b ∈ (w₁.pack e).buffs ∧ (w₁.buffAt b).baseid = Stats.arm ∧ (w₁.buffAt b).layers = l := by
  have harm := hr.arm.trans hsome
  rw [World.getBuff] at harm
  cases hfind : w₁.buffFind env e Stats.arm <;> rw [hfind] at harm <;> cases harm
  obtain ⟨hb, hbaseid⟩ := (World.buffFind_eq_some (hr.tables e)).1 hfind
  exact ⟨hb, hbaseid, rfl⟩

/-- A search that finds nothing, and what it says about the layers. -/
theorem World.buffFind_of_getBuff {l : ℤ} {b? : Option ℤ} (h : w.getBuff env e baseid = (b?, l)) : w.buffFind env e baseid = b? := by
  rw [World.getBuff] at h
  cases hfind : w.buffFind env e baseid <;> rw [hfind] at h <;> cases h <;> rfl

/-- The armor takes all. -/
theorem Reduced.guarded_wear (hr : Reduced env w e full w₁) {l : ℤ} (hsome : w.getBuff env e Stats.arm = (some b, l))
    (hle : w.hit env e full ≤ l) :
    wearArmor env act e (w.hit env e full) (some b) w₁ = .ok () (w₁.lowered e b (-w.hit env e full)) ∧
      Guarded env w e full .physical (w₁.lowered e b (-w.hit env e full)) := by
  obtain ⟨hb, hbaseid, hl⟩ := hr.mem_arm hsome
  have hne : Stats.unreal ≠ (w₁.buffAt b).baseid := by
    rw [hbaseid]
    decide
  have hlow : ((w₁.buffAt b).addLayers (-w.hit env e full)).layers = w.armorLeft env e (w.hit env e full) := by
    rw [Buff.layers_addLayers_neg (hl ▸ hle), World.armorLeft, hsome, hl, hr.base]
    show _ = min (max (l - w.hit env e full) 0) (w.buffAt b).base.maxLayers
    rw [max_eq_left (by omega)]
  have harm := @World.getBuff_lowered_self env _ _ _ hr.tables hb (-w.hit env e full)
  rw [hbaseid, hlow] at harm
  refine ⟨lower_mute hr.mute hb _, ⟨?_, fun _ => ?_, fun h => absurd rfl h⟩, mute_lowered hr.mute e b _,
    (w₁.pack_lowered e b _).1.trans hr.hp, (w₁.pack_lowered e b _).2.trans hr.maxhp⟩
  · rw [World.getBuffLayers, World.getBuff_lowered_of_ne hr.tables hne]
    exact hr.unreal
  · by_cases hzero : w.armorLeft env e (w.hit env e full) = 0
    · rw [if_pos hzero] at harm
      rw [World.getBuffLayers, harm, World.buffFind_of_getBuff harm]
      exact ⟨hzero.symm, iff_of_true rfl hzero⟩
    · rw [if_neg hzero] at harm
      rw [World.getBuffLayers, harm, World.buffFind_of_getBuff harm]
      exact ⟨rfl, iff_of_false (Option.some_ne_none b) hzero⟩

/-- The armor breaks. -/
theorem Reduced.guarded_break (hr : Reduced env w e full w₁) {l : ℤ}
    (hsome : w.getBuff env e Stats.arm = (some b, l)) (hlt : l < w.hit env e full) :
    breakArmor env act e (some b) w₁ = .ok () (w₁.without e b) ∧ Guarded env w e full .physical (w₁.without e b) := by
  obtain ⟨hb, hbaseid, hl⟩ := hr.mem_arm hsome
  have hne : Stats.unreal ≠ (w₁.buffAt b).baseid := by
    rw [hbaseid]
    decide
  have hroom : 0 ≤ (w.buffAt b).base.maxLayers := hr.base b ▸ (hr.tables e).room b hb
  have hleft : w.armorLeft env e (w.hit env e full) = 0 := by
    rw [World.armorLeft, hsome]
    show min (max (l - w.hit env e full) 0) _ = 0
    omega
  have harm := @World.getBuff_without_self env _ _ _ (hr.tables e) hb
  rw [hbaseid] at harm
  refine ⟨buffRemove_mute hr.mute hb, ⟨?_, fun _ => ?_, fun h => absurd rfl h⟩, World.mute_without hr.mute e b, ?_, ?_⟩
  · rw [World.getBuffLayers, World.getBuff_without_of_ne hr.tables hne]
    exact hr.unreal
  · rw [World.getBuffLayers, harm, World.buffFind_of_getBuff harm, hleft]
    exact ⟨rfl, iff_of_true rfl rfl⟩
  · rw [World.without, World.pack_setPack_self]
    exact hr.hp
  · rw [World.without, World.pack_setPack_self]
    exact hr.maxhp

/-- What is left once the hit points are lost. -/
theorem Guarded.struck {damageType : CardDamageType} {w₂ u : World} (h : Guarded env w e full damageType w₂)
    (hhp : 0 ≤ (w.pack e).hp ∧ (w.pack e).hp ≤ (w.pack e).maxhp)
    (hu : Unscathed (w₂.hurt e (-max (w.dealt env e (w.hit env e full) damageType) 0)) u) : Struck env w e full damageType u := by
  have hpack (value : ℤ) : (w₂.hurt e value).pack e =
      (w₂.pack e).withHp (min (max ((w₂.pack e).hp + value) 0) (w₂.pack e).maxhp) := World.pack_setPack_self ..
  have hbuffAt : u.buffAt = w₂.buffAt := hu.buffAt
  have hget (baseid : ℤ) : u.getBuff env e baseid = w₂.getBuff env e baseid := by
    refine World.getBuff_congr ?_ hbuffAt baseid
    rw [hu.buffs, hpack]
    rfl
  have hfind (baseid : ℤ) : u.buffFind env e baseid = w₂.buffFind env e baseid :=
    (World.buffFind_of_getBuff (hget baseid)).trans (World.buffFind_of_getBuff rfl).symm
  refine ⟨⟨?_, fun hphysical => ?_, fun hother => (hget _).trans (h.other hother)⟩, ?_⟩
  · rw [World.getBuffLayers, hget]
    exact h.unreal
  · rw [World.getBuffLayers, hget, hfind]
    exact h.armor hphysical
  · rw [hu.hp, hpack]
    show min (max ((w₂.pack e).hp + -max _ 0) 0) (w₂.pack e).maxhp = _
    rw [h.hp, h.maxhp]
    omega

end Armor

/-- Somebody with ten hit points who carries one buff. -/
def carrier (baseid : ℤ) (base : BuffBase) (layers : ℤ) : World where
  entityAt e := if e = 2 then { pack := { hp := 10, maxhp := 10, buffs := [7] } } else {}
  buffAt _ := { entity := 2, baseid := baseid, base := base, layers := layers }
  nextBuff := 8

end Slam.Game
