import Slam.Game.Acts
import Slam.Lib.Machine

/-!
# The table of buffs

Each buff of an entity stands under an identifier of its own, and there is one buff of a base id at most: `buff_add` looks
for it first. Its layers stay within what its row allows, since nothing writes them but `layers_add`
(`World.BuffTable`).

Between the search of `buff_add` and the insertion of the new buff, scripts run. If one of them added a buff
of the same base id, there would be two; `Env.AddsNone` says that none does. Whatever else scripts do, every
act keeps the tables (`follows_perform_of`), and so does every sequence of operations, whether they return or raise.
-/

namespace Slam.Game

open Raising Track

variable {env : Env}

/-! ### The invariant -/

/-- The buffs of an entity: each under its own identifier, one of a base id at most, with layers that the row
allows. -/
structure World.BuffTable (w : World) (e : ℤ) : Prop where
  nodup : (w.pack e).buffs.Nodup
  unique : ∀ b ∈ (w.pack e).buffs, ∀ b' ∈ (w.pack e).buffs, (w.buffAt b).baseid = (w.buffAt b').baseid → b = b'
  owned : ∀ b ∈ (w.pack e).buffs, (w.buffAt b).entity = e
  lt : ∀ b ∈ (w.pack e).buffs, b < w.nextBuff
  most : ∀ b ∈ (w.pack e).buffs, (w.buffAt b).layers ≤ (w.buffAt b).base.maxLayers
  least : ∀ b ∈ (w.pack e).buffs, (w.buffAt b).base.enableNegativeLayer = false → 0 ≤ (w.buffAt b).layers
  room : ∀ b ∈ (w.pack e).buffs, 0 ≤ (w.buffAt b).base.maxLayers

/-- The tables of all entities. -/
def World.BuffTables (w : World) : Prop := ∀ e, w.BuffTable e

/-- No script adds a buff of a base id that `buff_add` has looked for in vain, while it dispatches `BUFF_ADD_A`. -/
def Env.AddsNone (env : Env) : Prop :=
  ∀ n e baseid w, w.BuffTables → w.buffFind env e baseid = none →
    wp (breakpoint env (perform env n) e none none none) (fun _ w' => w'.buffFind env e baseid = none) (fun _ _ => True) w

/-- Every row allows no layers or more. -/
def Env.Roomy (env : Env) : Prop := ∀ baseid base, env.buffTable baseid = some base → 0 ≤ base.maxLayers

/-- What the tables are after a program: they are in order if they were, and the buffs in them were there before or are new. -/
structure TablesKept (w w' : World) : Prop where
  tables : w'.BuffTables
  next : w.nextBuff ≤ w'.nextBuff
  old : ∀ e, ∀ b ∈ (w'.pack e).buffs, b ∈ (w.pack e).buffs ∨ w.nextBuff ≤ b

/-- The track of programs that keep the tables in order, whether they return or raise. -/
def tableTrack : Track Fault World where
  ok w w' := w.BuffTables → TablesKept w w'
  error _ w w' := w.BuffTables → TablesKept w w'
  refl _ h := ⟨h, le_refl _, fun _ _ => .inl⟩
  trans h h' hw := by
    obtain ⟨htables, hnext, hold⟩ := h hw
    obtain ⟨htables', hnext', hold'⟩ := h' htables
    exact ⟨htables', hnext.trans hnext', fun e b hb => (hold' e b hb).elim (hold e b) fun hle => .inr (hnext.trans hle)⟩
  trans_error h h' hw := by
    obtain ⟨htables, hnext, hold⟩ := h hw
    obtain ⟨htables', hnext', hold'⟩ := h' htables
    exact ⟨htables', hnext.trans hnext', fun e b hb => (hold' e b hb).elim (hold e b) fun hle => .inr (hnext.trans hle)⟩

/-! ### The steps -/

theorem Aside.tablesKept {w w' : World} (h : Aside w w') (hw : w.BuffTables) : TablesKept w w' := by
  refine ⟨fun e => ?_, h.nextBuff.ge, fun e b hb => .inl (h.buffs e ▸ hb)⟩
  obtain ⟨hnodup, hunique, howned, hlt, hmost, hleast, hroom⟩ := hw e
  constructor <;> rw [h.buffs e] <;> simpa only [h.buffAt, h.nextBuff]

theorem table_aside {α : Type} {x : Run α} (h : asideTrack.Follows x) : tableTrack.Follows x :=
  h.mono (fun _ _ hok => hok.tablesKept) fun _ _ _ hok => hok.tablesKept

/-- Writing an entity without its buffs. -/
theorem tablesKept_setEntity {w : World} {e : ℤ} {x : Entity} (h : x.pack.buffs = (w.pack e).buffs) (hw : w.BuffTables) :
    TablesKept w (w.setEntity e x) := by
  have hbuffs (i : ℤ) : ((w.setEntity e x).pack i).buffs = (w.pack i).buffs := by
    by_cases hi : i = e
    · rw [hi, World.pack, World.entityAt_setEntity_self, h]
    · rw [World.pack, World.entityAt_setEntity_of_ne w hi, World.pack]
  refine ⟨fun i => ?_, le_refl _, fun i b hb => .inl (hbuffs i ▸ hb)⟩
  obtain ⟨hnodup, hunique, howned, hlt, hmost, hleast, hroom⟩ := hw i
  constructor <;> rw [hbuffs i] <;> assumption

/-- The layers are at most what the row allows. -/
theorem Buff.layers_addLayers_le (x : Buff) (value : ℤ) : (x.addLayers value).layers ≤ x.base.maxLayers := by
  simp only [addLayers]
  split_ifs <;> omega

theorem Buff.layers_addLayers_nonneg {x : Buff} (hroom : 0 ≤ x.base.maxLayers) (hneg : x.base.enableNegativeLayer = false)
    (value : ℤ) : 0 ≤ (x.addLayers value).layers := by
  simp only [addLayers, hneg, true_and]
  split_ifs <;> omega

/-- The layers of a buff are within what its row allows after every `layers_add`. -/
theorem table_layersAdd (b value : ℤ) : tableTrack.Follows (layersAdd b value) := by
  refine follows_modify fun w hw => ⟨fun e => ?_, le_refl _, fun _ _ => .inl⟩
  obtain ⟨hnodup, hunique, howned, hlt, hmost, hleast, hroom⟩ := hw e
  obtain ⟨u, hu⟩ : ∃ u, u = w.setBuff b ((w.buffAt b).addLayers value) := ⟨_, rfl⟩
  have hself : u.buffAt b = (w.buffAt b).addLayers value := by rw [hu, World.buffAt_setBuff_self]
  have hother {i : ℤ} (hi : i ≠ b) : u.buffAt i = w.buffAt i := by rw [hu, World.buffAt_setBuff_of_ne w hi]
  have hsame (i : ℤ) : (u.buffAt i).entity = (w.buffAt i).entity ∧ (u.buffAt i).baseid = (w.buffAt i).baseid ∧
      (u.buffAt i).base = (w.buffAt i).base := by
    by_cases hi : i = b
    · rw [hi, hself]
      exact ⟨rfl, rfl, rfl⟩
    · rw [hother hi]
      exact ⟨rfl, rfl, rfl⟩
  have hpack : u.pack e = w.pack e := by rw [hu]; rfl
  have hnext : u.nextBuff = w.nextBuff := by rw [hu]; rfl
  show (w.setBuff b ((w.buffAt b).addLayers value)).BuffTable e
  rw [← hu]
  constructor <;> rw [hpack]
  · exact hnodup
  · exact fun i hi j hj hij => hunique i hi j hj (by rwa [(hsame i).2.1, (hsame j).2.1] at hij)
  · exact fun i hi => (hsame i).1.trans (howned i hi)
  · exact fun i hi => hnext ▸ hlt i hi
  · intro i hi
    rw [(hsame i).2.2]
    by_cases hib : i = b
    · rw [hib, hself]
      exact Buff.layers_addLayers_le _ _
    · rw [hother hib]
      exact hmost i hi
  · intro i hi hneg
    rw [(hsame i).2.2] at hneg
    by_cases hib : i = b
    · rw [hib] at hi hneg ⊢
      rw [hself]
      exact Buff.layers_addLayers_nonneg (hroom b hi) hneg value
    · rw [hother hib]
      exact hleast i hi hneg
  · exact fun i hi => (hsame i).2.2 ▸ hroom i hi

/-- A buff is taken out of a table. -/
theorem tablesKept_erase {w : World} (hw : w.BuffTables) (e b : ℤ) :
    TablesKept w (w.setPack e { w.pack e with buffs := (w.pack e).buffs.erase b }) := by
  obtain ⟨u, hu⟩ : ∃ u, u = w.setPack e { w.pack e with buffs := (w.pack e).buffs.erase b } := ⟨_, rfl⟩
  have hsub (i : ℤ) : ((u.pack i).buffs).Sublist (w.pack i).buffs := by
    by_cases hi : i = e
    · rw [hi, hu, World.pack_setPack_self]
      exact List.erase_sublist
    · rw [hu, World.pack_setPack_of_ne w hi]
  have hmem (i : ℤ) {c : ℤ} (hc : c ∈ (u.pack i).buffs) : c ∈ (w.pack i).buffs := (hsub i).subset hc
  have hbuffAt : u.buffAt = w.buffAt := by rw [hu]; rfl
  have hnext : u.nextBuff = w.nextBuff := by rw [hu]; rfl
  rw [← hu]
  refine ⟨fun i => ?_, hnext.ge, fun i c hc => .inl (hmem i hc)⟩
  obtain ⟨hnodup, hunique, howned, hlt, hmost, hleast, hroom⟩ := hw i
  constructor
  · exact hnodup.sublist (hsub i)
  · rw [hbuffAt]
    exact fun c hc d hd => hunique c (hmem i hc) d (hmem i hd)
  · rw [hbuffAt]
    exact fun c hc => howned c (hmem i hc)
  · rw [hnext]
    exact fun c hc => hlt c (hmem i hc)
  · rw [hbuffAt]
    exact fun c hc => hmost c (hmem i hc)
  · rw [hbuffAt]
    exact fun c hc => hleast c (hmem i hc)
  · rw [hbuffAt]
    exact fun c hc => hroom c (hmem i hc)

/-- The buff that `Buff:new` makes of a row. -/
def BuffBase.fresh (base : BuffBase) (e baseid layers : ℤ) : Buff :=
  ({ entity := e, baseid := baseid, base := base, layers := 0 } : Buff).addLayers layers

@[simp] theorem BuffBase.base_fresh (base : BuffBase) (e baseid layers : ℤ) : (base.fresh e baseid layers).base = base := rfl

/-- A new buff has layers that its row allows. -/
theorem BuffBase.layers_fresh {base : BuffBase} (hroom : 0 ≤ base.maxLayers) (e baseid layers : ℤ) :
    (base.fresh e baseid layers).layers ≤ base.maxLayers ∧
      (base.enableNegativeLayer = false → 0 ≤ (base.fresh e baseid layers).layers) := by
  obtain ⟨x, hx, hbase⟩ : ∃ x : Buff, base.fresh e baseid layers = x.addLayers layers ∧ x.base = base := ⟨_, rfl, rfl⟩
  subst hbase
  rw [hx]
  exact ⟨x.layers_addLayers_le layers, fun hneg => Buff.layers_addLayers_nonneg hroom hneg layers⟩

/-- The world after `Buff:new` has made a buff. -/
def World.withBuff (w : World) (x : Buff) : World := World.setBuff { w with nextBuff := w.nextBuff + 1 } w.nextBuff x

theorem wp_buffNew {e baseid layers : ℤ} {w : World} {Q : ℤ → World → Prop} {E : Fault → World → Prop}
    (hok : ∀ base, env.buffTable baseid = some base → Q w.nextBuff (w.withBuff (base.fresh e baseid layers)))
    (herror : E (.assertion .buffNew) { w with nextBuff := w.nextBuff + 1 }) :
    wp (buffNew env e baseid layers) Q E w := by
  rw [buffNew, wp_bind, wp_get, wp_bind, wp_modify]
  split
  · exact herror
  · rename_i base hbase
    rw [wp_bind, wp_assertion]
    refine ⟨fun _ => ?_, fun _ => herror⟩
    have hmade := hok base hbase
    rw [wp_bind, wp_modify, wp_bind, layersAdd, wp_modify, wp_pure, World.buffAt_setBuff_self]
    rw [World.withBuff, BuffBase.fresh, World.setBuff] at hmade
    simpa only [World.setBuff, Function.update_idem] using hmade

/-- A buff that has just been made is in no table. -/
theorem tablesKept_withBuff {w : World} (hw : w.BuffTables) (x : Buff) : TablesKept w (w.withBuff x) := by
  obtain ⟨u, hu⟩ : ∃ u, u = w.withBuff x := ⟨_, rfl⟩
  have hpack (e : ℤ) : u.pack e = w.pack e := by rw [hu]; rfl
  have hnext : u.nextBuff = w.nextBuff + 1 := by rw [hu]; rfl
  rw [← hu]
  refine ⟨fun e => ?_, hnext ▸ (Int.lt_succ _).le, fun e b hb => .inl (hpack e ▸ hb)⟩
  obtain ⟨hnodup, hunique, howned, hlt, hmost, hleast, hroom⟩ := hw e
  have hsame : ∀ b ∈ (w.pack e).buffs, u.buffAt b = w.buffAt b := fun b hb => by
    rw [hu]
    exact World.buffAt_setBuff_of_ne _ (hlt b hb).ne _
  constructor <;> rw [hpack]
  · exact hnodup
  · exact fun b hb c hc hbc => hunique b hb c hc (by rwa [hsame b hb, hsame c hc] at hbc)
  · exact fun b hb => by rw [hsame b hb]; exact howned b hb
  · exact fun b hb => by rw [hnext]; exact (hlt b hb).trans (Int.lt_succ _)
  · exact fun b hb => by rw [hsame b hb]; exact hmost b hb
  · exact fun b hb => by rw [hsame b hb]; exact hleast b hb
  · exact fun b hb => by rw [hsame b hb]; exact hroom b hb

/-- A buff of a base id that is not there yet comes into a table. -/
theorem tablesKept_insert {w : World} (hw : w.BuffTables) {e baseid : ℤ} {base : BuffBase} (hroom : 0 ≤ base.maxLayers)
    (hnone : ∀ b ∈ (w.pack e).buffs, (w.buffAt b).baseid ≠ baseid) (layers : ℤ) {u : World}
    (hu : u = w.withBuff (base.fresh e baseid layers)) :
    TablesKept w (u.setPack e { u.pack e with buffs := (u.pack e).buffs ++ [w.nextBuff] }) := by
  obtain ⟨v, hv⟩ : ∃ v, v = u.setPack e { u.pack e with buffs := (u.pack e).buffs ++ [w.nextBuff] } := ⟨_, rfl⟩
  have hpack (i : ℤ) : u.pack i = w.pack i := by rw [hu]; rfl
  have hnext : v.nextBuff = w.nextBuff + 1 := by rw [hv, hu]; rfl
  have hself : v.buffAt w.nextBuff = base.fresh e baseid layers := by
    rw [hv, hu]
    exact World.buffAt_setBuff_self ..
  have hother {c : ℤ} (hc : c < w.nextBuff) : v.buffAt c = w.buffAt c := by
    rw [hv, hu]
    exact World.buffAt_setBuff_of_ne _ hc.ne _
  have hmem {i c : ℤ} (hc : c ∈ (v.pack i).buffs) : c ∈ (w.pack i).buffs ∨ i = e ∧ c = w.nextBuff := by
    by_cases hi : i = e
    · rw [hi, hv, World.pack_setPack_self, hpack] at hc
      rcases List.mem_append.1 hc with hc | hc
      · exact .inl (hi ▸ hc)
      · exact .inr ⟨hi, List.mem_singleton.1 hc⟩
    · rw [hv, World.pack_setPack_of_ne u hi, hpack] at hc
      exact .inl hc
  have hnodup (i : ℤ) : (v.pack i).buffs.Nodup := by
    by_cases hi : i = e
    · rw [hi, hv, World.pack_setPack_self, hpack]
      refine List.nodup_append_comm.1 (List.nodup_cons.2 ⟨fun hc => ?_, (hw e).nodup⟩)
      exact lt_irrefl _ ((hw e).lt _ hc)
    · rw [hv, World.pack_setPack_of_ne u hi, hpack]
      exact (hw i).nodup
  rw [← hv]
  refine ⟨fun i => ?_, hnext ▸ (Int.lt_succ _).le, fun i c hc => (hmem hc).imp_right fun h => h.2.ge⟩
  obtain ⟨-, hunique, howned, hlt, hmost, hleast, hbase⟩ := hw i
  -- What holds of the old buffs and of the new one holds of all.
  have hall {P : Buff → Prop} (hold : ∀ c ∈ (w.pack i).buffs, P (w.buffAt c))
      (hfresh : i = e → P (base.fresh e baseid layers)) : ∀ c ∈ (v.pack i).buffs, P (v.buffAt c) := by
    intro c hc
    rcases hmem hc with hc | ⟨hi, rfl⟩
    · rw [hother (hlt c hc)]
      exact hold c hc
    · rw [hself]
      exact hfresh hi
  refine ⟨hnodup i, ?_, @hall (fun x => x.entity = i) howned fun hi => hi.symm, ?_, ?_, ?_, ?_⟩
  · intro c hc d hd hcd
    rcases hmem hc with hc | ⟨hi, rfl⟩ <;> rcases hmem hd with hd | ⟨hi', rfl⟩
    · rw [hother (hlt c hc), hother (hlt d hd)] at hcd
      exact hunique c hc d hd hcd
    · rw [hother (hlt c hc), hself] at hcd
      exact absurd hcd (hnone c (hi' ▸ hc))
    · rw [hother (hlt d hd), hself] at hcd
      exact absurd hcd.symm (hnone d (hi ▸ hd))
    · rfl
  · intro c hc
    rw [hnext]
    rcases hmem hc with hc | ⟨-, rfl⟩
    · exact (hlt c hc).trans (Int.lt_succ _)
    · exact Int.lt_succ _
  · exact @hall (fun x => x.layers ≤ x.base.maxLayers) hmost fun _ => (BuffBase.layers_fresh hroom e baseid layers).1
  · exact @hall (fun x => x.base.enableNegativeLayer = false → 0 ≤ x.layers) hleast fun _ =>
      (BuffBase.layers_fresh hroom e baseid layers).2
  · exact @hall (fun x => 0 ≤ x.base.maxLayers) hbase fun _ => hroom

/-! ### Everything a script may do -/

section Scripts

variable {act : Act → Run Unit}

theorem World.buffFind_eq_none {w : World} {e baseid : ℤ} :
    w.buffFind env e baseid = none ↔ ∀ b ∈ (w.pack e).buffs, (w.buffAt b).baseid ≠ baseid := by
  simp only [World.buffFind, List.find?_eq_none, decide_eq_true_eq, env.mem_pairs, ne_eq]

/-- `buff_add` keeps the tables, if the scripts keep them and add no buff of the base id while they are asked at
`BUFF_ADD_A`. -/
theorem table_buffAdd (hroomy : env.Roomy) (hscript : ∀ f call w, ∀ a ∈ env.script f call w, tableTrack.Follows (act a))
    (hnone : ∀ e baseid w, w.BuffTables → w.buffFind env e baseid = none →
      wp (breakpoint env act e none none none) (fun _ w' => w'.buffFind env e baseid = none) (fun _ _ => True) w)
    (e baseid layers : ℤ) : tableTrack.Follows (buffAdd env act e baseid layers) := by
  have hbreak : tableTrack.Follows (breakpoint env act e none none none) :=
    follows_breakpoint_of table_aside hscript e none none none
  rw [buffAdd]
  split
  · exact table_aside (aside_throw _)
  · refine (table_aside (aside_getPack e)).bind fun p => Follows.ite (fun _ => follows_pure _) fun _ => ?_
    intro w
    rw [wp_bind, wp_get]
    split
    · exact table_layersAdd _ _ w
    · rename_i hfind
      by_cases hw : w.BuffTables
      · rw [wp_bind]
        refine wp_mono (wp_and (hbreak w) (hnone e baseid w hw hfind)) ?_ fun _ _ h => h.1
        rintro _ u ⟨hkept, hfind'⟩
        have hu : u.BuffTables := (hkept hw).tables
        rw [World.buffFind_eq_none] at hfind'
        refine wp_trans hkept ?_
        rw [wp_bind]
        refine wp_buffNew (fun base hbase => ?_) fun hu => ?_
        · rw [wp_bind, wp_getPack, wp_bind, wp_assertion]
          refine ⟨fun _ => ?_, fun _ hu => tablesKept_withBuff hu _⟩
          rw [wp_bind, wp_modifyPack]
          refine wp_trans (fun hu => ?_) (hbreak _)
          exact tablesKept_insert hu (hroomy baseid base hbase) hfind' layers rfl
        · have htake := tablesKept_withBuff hu (u.buffAt u.nextBuff)
          rwa [World.withBuff, World.setBuff, Function.update_eq_self] at htake
      · exact wp_mono (wp_top _ _) (fun _ _ _ h => absurd h hw) fun _ _ _ h => absurd h hw

/-- `buff_remove` keeps the tables. -/
theorem table_buffRemove (hscript : ∀ f call w, ∀ a ∈ env.script f call w, tableTrack.Follows (act a)) (e b : ℤ) :
    tableTrack.Follows (buffRemove env act e b) := by
  have hbreak : tableTrack.Follows (breakpoint env act e none none none) :=
    follows_breakpoint_of table_aside hscript e none none none
  refine (table_aside (aside_getPack e)).bind fun p => (table_aside (aside_assertion _ _)).bind fun _ => hbreak.bind fun _ => ?_
  refine (table_aside (aside_getPack e)).bind fun p => Follows.ite (fun _ => table_aside (aside_throw _)) fun _ => ?_
  exact (follows_modify fun w hw => tablesKept_erase hw e b).bind fun _ => hbreak

/-- A buff that is removed is in no table any more, and scripts do not bring it back. -/
theorem wp_buffRemove_gone (hscript : ∀ f call w, ∀ a ∈ env.script f call w, tableTrack.Follows (act a)) {e b : ℤ} {w : World}
    (hw : w.BuffTables) :
    wp (buffRemove env act e b) (fun _ w' => ∀ i, b ∉ (w'.pack i).buffs) (fun _ _ => True) w := by
  have hbreak : tableTrack.Follows (breakpoint env act e none none none) :=
    follows_breakpoint_of table_aside hscript e none none none
  rw [buffRemove, wp_bind, wp_getPack, wp_bind, wp_assertion]
  refine ⟨fun _ => ?_, fun _ => trivial⟩
  rw [wp_bind]
  refine wp_mono (hbreak w) (fun _ u hu => ?_) fun _ _ _ => trivial
  have htables := (hu hw).tables
  rw [wp_bind, wp_getPack, wp_ite]
  refine ⟨fun _ => trivial, fun hmem => ?_⟩
  have hmem : b ∈ (u.pack e).buffs := not_not.1 hmem
  rw [wp_bind, wp_modifyPack]
  have hkept := tablesKept_erase htables e b
  -- The buff stands in the table of its owner only.
  have hgone (i : ℤ) : b ∉ ((u.setPack e { u.pack e with buffs := (u.pack e).buffs.erase b }).pack i).buffs := by
    by_cases hi : i = e
    · rw [hi, World.pack_setPack_self]
      exact (htables e).nodup.not_mem_erase
    · rw [World.pack_setPack_of_ne u hi]
      intro hb
      exact hi (((htables i).owned b hb).symm.trans ((htables e).owned b hmem))
  refine wp_mono (hbreak _) (fun _ v hv i hb => ?_) fun _ _ _ => trivial
  rcases (hv hkept.tables).old i b hb with hold | hnew
  · exact hgone i hold
  · exact absurd (hkept.next.trans hnew) (not_le.2 ((htables e).lt b hmem))

end Scripts

/-- Every act of a script keeps the tables. -/
theorem table_perform (hroomy : env.Roomy) (hadds : env.AddsNone) (n : ℕ) (a : Act) : tableTrack.Follows (perform env n a) := by
  refine follows_perform_of table_aside (fun n hscript => ?_) n a
  exact {
    aside := table_aside
    hp := fun e value => follows_modify fun w => tablesKept_setEntity rfl
    death := fun e => follows_modify fun w => tablesKept_setEntity rfl
    layersAdd := table_layersAdd
    buffAdd := table_buffAdd hroomy hscript (hadds n)
    buffRemove := table_buffRemove hscript
    script := hscript }

/-- Scripts that do nothing add no buff. -/
theorem Env.addsNone_of_silent (h : ∀ f call w, env.script f call w = []) : env.AddsNone := by
  intro n e baseid w _ hnone
  have hbreak : asideTrack.Follows (breakpoint env (perform env n) e none none none) :=
    follows_breakpoint_of (fun hx => hx) (fun f call u a ha => by simp [h] at ha) e none none none
  refine wp_mono (hbreak w) (fun _ u hu => ?_) fun _ _ _ => trivial
  rw [World.buffFind_eq_none] at hnone ⊢
  rw [hu.buffs, hu.buffAt]
  exact hnone

/-! ### Sequences of operations -/

/-- The operations on the buffs of an entity. -/
inductive BuffCall
  | buffAdd (e baseid layers : ℤ)
  | buffRemove (e b : ℤ)
  | buffClear (e : ℤ)
  | modifyLayers (b layers : ℤ)
  | scaleARMBuff (e : ℤ) (scale : ℚ)

/-- The call, where scripts call each other to the depth `n`. -/
def BuffCall.run (env : Env) (n : ℕ) : BuffCall → Run Unit
  | buffAdd e baseid layers => Game.buffAdd env (perform env n) e baseid layers
  | buffRemove e b => Game.buffRemove env (perform env n) e b
  | buffClear e => Game.buffClear env (perform env n) e
  | modifyLayers b layers => Game.modifyLayers env (perform env n) b layers
  | scaleARMBuff e scale => Game.scaleARMBuff env (perform env n) e scale

/-- A sequence of operations, which return or raise. -/
def buffMachine (env : Env) (n : ℕ) : Machine World BuffCall where
  step w call := some (endState (call.run env n) w)

variable {n : ℕ}

/-- An operation keeps the tables. -/
theorem BuffCall.table_run (hroomy : env.Roomy) (hadds : env.AddsNone) (call : BuffCall) :
    tableTrack.Follows (call.run env n) := by
  have hscript : ∀ f call w, ∀ a ∈ env.script f call w, tableTrack.Follows (perform env n a) :=
    fun _ _ _ a _ => table_perform hroomy hadds n a
  have hadd (e baseid layers : ℤ) : tableTrack.Follows (Game.buffAdd env (perform env n) e baseid layers) :=
    table_buffAdd hroomy hscript (hadds n) e baseid layers
  have hremove (e b : ℤ) : tableTrack.Follows (Game.buffRemove env (perform env n) e b) := table_buffRemove hscript e b
  cases call with
  | buffAdd e baseid layers => exact hadd e baseid layers
  | buffRemove e b => exact hremove e b
  | buffClear e =>
    refine (table_aside (aside_getPack e)).bind fun p => Follows.forM fun b _ => ?_
    exact (table_aside (aside_getPack e)).bind fun p => Follows.ite (fun _ => hremove e b) fun _ => follows_pure _
  | modifyLayers b layers =>
    refine (table_layersAdd b layers).bind fun _ => follows_get.bind fun w => ?_
    exact Follows.ite (fun _ => hremove _ _) fun _ => follows_pure _
  | scaleARMBuff e scale =>
    refine Follows.ite (fun _ => follows_pure _) fun _ => follows_get.bind fun w => ?_
    split
    · exact follows_pure _
    · exact Follows.ite (fun _ => hadd _ _ _) fun _ => hremove _ _

/-- `buff_add` of a buff for packs of another span does nothing. -/
theorem buffAdd_of_span {act : Act → Run Unit} {e baseid : ℤ} {base : BuffBase} {w : World}
    (hbase : env.buffTable baseid = some base) (hspan : base.span ≠ .none ∧ base.span ≠ (w.pack e).span) (layers : ℤ) :
    buffAdd env act e baseid layers w = .ok () w := by
  rw [buffAdd, hbase]
  show (if _ then pure () else _ : Run Unit) w = _
  rw [if_pos hspan]
  rfl

/-- **The tables of buffs stay in order** in every sequence of operations. A buff that `modifyLayers` brings down to zero layers
is in no table any more, and `buff_add` of a buff for another span changes nothing. -/
theorem buff_tables (hroomy : env.Roomy) (hadds : env.AddsNone) {w w' : World} {calls : List BuffCall} (hw : w.BuffTables)
    (hrun : (buffMachine env n).run w calls = some w') :
    w'.BuffTables ∧
      (∀ b layers w'', ((w'.buffAt b).addLayers layers).layers = 0 →
        modifyLayers env (perform env n) b layers w' = .ok () w'' → ∀ e, b ∉ (w''.pack e).buffs) ∧
      ∀ e baseid layers base, env.buffTable baseid = some base → base.span ≠ .none → base.span ≠ (w'.pack e).span →
        buffAdd env (perform env n) e baseid layers w' = .ok () w' := by
  have hw' : w'.BuffTables := by
    refine Machine.invariant (I := World.BuffTables) (fun u call u' hu hstep => ?_) hw hrun
    cases hstep
    exact endState_of_wp (wp_mono (call.table_run hroomy hadds u) (fun _ _ h => (h hu).tables) fun _ _ h => (h hu).tables)
  refine ⟨hw', fun b layers w'' hzero hok => ?_, fun e baseid layers base hbase hnone hspan =>
    buffAdd_of_span hbase ⟨hnone, hspan⟩ layers⟩
  have hgone : wp (modifyLayers env (perform env n) b layers) (fun _ w'' => ∀ e, b ∉ (w''.pack e).buffs) (fun _ _ => True) w' := by
    rw [modifyLayers, wp_bind, layersAdd, wp_modify, wp_bind, wp_get, World.buffAt_setBuff_self, if_pos hzero]
    exact wp_buffRemove_gone (fun _ _ _ a _ => table_perform hroomy hadds n a) (table_layersAdd b layers w' hw').tables
  exact (wp_ok hok).1 hgone

/-- Armor is added, worn down and halved. -/
theorem buff_tables_armor : ∃ w', (buffMachine plainEnv 1).run {} [.buffAdd 1 Stats.arm 5, .modifyLayers 0 (-1),
    .scaleARMBuff 1 (1 / 2)] = some w' ∧ w'.BuffTables ∧ ∀ w'', ((w'.buffAt 0).addLayers (-2)).layers = 0 →
      modifyLayers plainEnv (perform plainEnv 1) 0 (-2) w' = .ok () w'' → 0 ∉ (w''.pack 1).buffs := by
  have hempty : ({} : World).BuffTables := fun e => ⟨List.nodup_nil, nofun, nofun, nofun, nofun, nofun, nofun⟩
  have hroomy : plainEnv.Roomy := by
    rintro baseid base ⟨⟩
    decide
  obtain ⟨htables, hgone, -⟩ := buff_tables hroomy (Env.addsNone_of_silent fun _ _ _ => rfl) hempty
    (show (buffMachine plainEnv 1).run {} [.buffAdd 1 Stats.arm 5, .modifyLayers 0 (-1), .scaleARMBuff 1 (1 / 2)] = some _ from rfl)
  exact ⟨_, rfl, htables, fun w'' hzero hok => hgone 0 (-2) w'' hzero hok 1⟩

end Slam.Game
