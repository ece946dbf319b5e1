import Slam.Game.Aside
import Slam.Game.BuffScript
import Slam.Game.Bounds

/-!
# Breakpoints and the scripts that answer to them

The scripts of buffs are called by `hp_add`, `buff_add`, `buff_remove` and the breakpoints of a round, and
call these functions again. As long as no row runs `multArmor` a dispatch of nil is answered by nobody
(`World.Calm`), so that the only way from a script to another one is a death that hands over the turn.
Each such death leaves one entity less in the match, and the depth of the calls is bounded by their number:
two runs that differ in what would be done below that depth agree.
-/

namespace Slam.Game

open Raising Track

/-! ### Rows -/

/-- The row does not run `multArmor`, and it has the parameters that its script reads at every breakpoint. -/
def BuffBase.Mild (which : ScriptFunc → BuffFunc) (base : BuffBase) : Prop :=
  base.enableScript = true → ∀ f, base.scriptFunc = some f → which f ≠ .multArmor ∧
    (which f = .gainBuffOnRoundBegin ∨ which f = .gainBuffOnRoundEnd → 2 ≤ base.params.length)

/-- All rows of the table are mild. -/
def Env.Mild (env : Env) (which : ScriptFunc → BuffFunc) : Prop :=
  ∀ baseid base, env.buffTable baseid = some base → base.Mild which

/-- The buffs on entities are made from rows of the table that have a script. -/
def World.Tabled (w : World) (env : Env) : Prop :=
  ∀ e, ∀ b ∈ (w.pack e).buffs, (w.buffAt b).base.scriptFunc.isSome ∧
    ∃ baseid, env.buffTable baseid = some (w.buffAt b).base

/-- The buffs on entities have mild rows. -/
def World.Calm (w : World) (which : ScriptFunc → BuffFunc) : Prop :=
  ∀ e, ∀ b ∈ (w.pack e).buffs, (w.buffAt b).base.scriptFunc.isSome ∧ (w.buffAt b).base.Mild which

/-- The number of entities of the match that live. -/
def World.living (w : World) : ℕ :=
  match w.sceneMatch with
  | none => 0
  | some m => (m.entities.filter fun e => (w.entityAt e).death = false).length

theorem World.living_congr {w w' : World} (hdeath : ∀ e, (w'.entityAt e).death = (w.entityAt e).death)
    (hentities : w'.sceneMatch.map Match.entities = w.sceneMatch.map Match.entities) : w'.living = w.living := by
  unfold World.living
  cases hw : w.sceneMatch with
  | none =>
    rw [hw] at hentities
    rw [Option.map_eq_none_iff.1 hentities]
  | some m =>
    rw [hw] at hentities
    obtain ⟨m', hm', hsame⟩ := Option.map_eq_some_iff.1 hentities
    simp only [hm', hsame, hdeath]

/-- An entity of the match dies, and the others are as they were. -/
theorem World.living_lt {w w' : World} {m : Match} {e : ℤ} (hm : w.sceneMatch = some m) (hm' : w'.sceneMatch = some m)
    (he : e ∈ m.entities) (hliving : (w.entityAt e).death = false) (hdeath : (w'.entityAt e).death = true)
    (hother : ∀ i, i ≠ e → (w'.entityAt i).death = (w.entityAt i).death) : w'.living < w.living := by
  have hfilter : (m.entities.filter fun i => (w'.entityAt i).death = false) =
      (m.entities.filter fun i => (w.entityAt i).death = false).filter fun i => (w'.entityAt i).death = false := by
    rw [List.filter_filter]
    refine List.filter_congr fun i _ => ?_
    by_cases hi : i = e
    · simp [hi, hdeath]
    · simp [hother i hi]
  simp only [World.living, hm, hm', hfilter]
  rw [List.length_filter_lt_length_iff_exists]
  exact ⟨e, List.mem_filter.2 ⟨he, by simp [hliving]⟩, by simp [hdeath]⟩

/-- A script with a mild row does something only at a breakpoint that it names, and never at nil. -/
theorem BuffFunc.mem_names {env : Env} {random : World → ℕ → ℕ} {e b : ℤ} {bp : Option BreakPoint} {w : World}
    {f : BuffFunc} (hf : f ≠ .multArmor)
    (hparams : f = .gainBuffOnRoundBegin ∨ f = .gainBuffOnRoundEnd → 2 ≤ (w.buffAt b).base.params.length)
    (h : f.acts env random e b bp w ≠ []) : ∃ d ∈ f.names, bp = some d := by
  have hif {d : BreakPoint} {l : List Act} (h : (if bp = some d then l else []) ≠ []) : bp = some d := by
    by_contra hbp
    rw [if_neg hbp] at h
    exact h rfl
  cases f with
  | none | commonFlagBuff | kuangbao => exact absurd rfl h
  | multArmor => exact absurd rfl hf
  | gainBuffOnRoundBegin =>
    rw [acts, if_neg (not_lt.2 (hparams (.inl rfl)))] at h
    exact ⟨_, List.mem_singleton_self _, hif h⟩
  | gainBuffOnRoundEnd =>
    rw [acts, if_neg (not_lt.2 (hparams (.inr rfl)))] at h
    exact ⟨_, List.mem_singleton_self _, hif h⟩
  | _ => exact ⟨_, List.mem_singleton_self _, hif h⟩

section

variable {env : Env} {which : ScriptFunc → BuffFunc} {random : World → ℕ → ℕ}

/-- What the script of a buff with a mild row does at the breakpoint nil. -/
theorem World.Calm.silent (hships : env.Ships which random) {w : World} (h : w.Calm which) (e : ℤ) :
    w.Silent env e := by
  intro b hb henable
  obtain ⟨hsome, hmild⟩ := h e b hb
  obtain ⟨f, hf⟩ := Option.isSome_iff_exists.1 hsome
  refine ⟨f, hf, ?_⟩
  obtain ⟨hne, hparams⟩ := hmild henable f hf
  rw [hships.buff f _ w b rfl]
  by_contra hacts
  obtain ⟨d, -, hd⟩ := BuffFunc.mem_names hne hparams hacts
  cases hd

/-! ### What does not touch buffs -/

/-- Nobody has died, the buffs are the same ones, and so are the entities of the match. -/
structure Bland (w w' : World) : Prop where
  death : ∀ e, (w'.entityAt e).death = (w.entityAt e).death
  buffs : ∀ e, (w'.pack e).buffs = (w.pack e).buffs
  base : ∀ b, (w'.buffAt b).base = (w.buffAt b).base
  entities : w'.sceneMatch.map Match.entities = w.sceneMatch.map Match.entities

theorem Bland.living {w w' : World} (h : Bland w w') : w'.living = w.living := World.living_congr h.death h.entities

theorem Bland.calm {w w' : World} (h : Bland w w') (hw : w.Calm which) : w'.Calm which := by
  intro e b hb
  rw [h.buffs] at hb
  rw [h.base]
  exact hw e b hb

/-- The track of programs that do not touch buffs. -/
def blandTrack : Track Fault World where
  ok := Bland
  error _ _ _ := True
  refl _ := ⟨fun _ => rfl, fun _ => rfl, fun _ => rfl, rfl⟩
  trans h h' := ⟨fun e => (h'.death e).trans (h.death e), fun e => (h'.buffs e).trans (h.buffs e),
    fun b => (h'.base b).trans (h.base b), h'.entities.trans h.entities⟩
  trans_error _ _ := trivial

/-- What leaves hit points and buffs aside is bland. -/
theorem bland_of_aside {α : Type} {x : Run α} (h : asideTrack.Follows x) : blandTrack.Follows x :=
  h.mono (fun _ _ hok => ⟨hok.death, hok.buffs, fun b => by rw [hok.buffAt], hok.entities⟩) fun _ _ _ _ => trivial

theorem bland_modifyPack {e : ℤ} {f : Pack → Pack} (h : ∀ p, (f p).buffs = p.buffs) :
    blandTrack.Follows (modifyPack e f) := by
  refine follows_modify fun w => ⟨fun i => World.death_setPack .., fun i => ?_, fun _ => rfl, rfl⟩
  by_cases hi : i = e
  · rw [hi, World.pack_setPack_self, h]
  · rw [World.pack_setPack_of_ne w hi]

theorem bland_layersAdd (b value : ℤ) : blandTrack.Follows (layersAdd b value) := by
  refine follows_modify fun w => ⟨fun _ => rfl, fun _ => rfl, fun i => ?_, rfl⟩
  by_cases hi : i = b
  · rw [hi, World.buffAt_setBuff_self, Buff.addLayers]
  · rw [World.buffAt_setBuff_of_ne w hi]

/-! ### Runs that agree -/

/-- Buffs have mild rows, and no more than so many entities of the match live. -/
def World.CalmWithin (which : ScriptFunc → BuffFunc) (bound : ℕ) (w : World) : Prop := w.Calm which ∧ w.living ≤ bound

/-- A pack whose buffs have mild rows is put on an entity. -/
theorem World.CalmWithin.setPack {bound : ℕ} {w : World} (hw : w.CalmWithin which bound) {e : ℤ} {p : Pack}
    (hp : ∀ b ∈ p.buffs, (w.buffAt b).base.scriptFunc.isSome ∧ (w.buffAt b).base.Mild which) :
    (w.setPack e p).CalmWithin which bound := by
  refine ⟨fun i b hb => ?_, ?_⟩
  · rw [World.pack_setPack] at hb
    split_ifs at hb
    · exact hp b hb
    · exact hw.1 i b hb
  · have hliving : (w.setPack e p).living = w.living := World.living_congr (fun i => by rw [World.entityAt_setPack]) rfl
    exact hliving.trans_le hw.2

/-- A buff gets a mild row. -/
theorem World.CalmWithin.setBuff {bound : ℕ} {w : World} (hw : w.CalmWithin which bound) {b : ℤ} {x : Buff}
    (hsome : x.base.scriptFunc.isSome) (hx : x.base.Mild which) : (w.setBuff b x).CalmWithin which bound := by
  refine ⟨fun i c hc => ?_, hw.2⟩
  by_cases hcb : c = b
  · rw [hcb, World.buffAt_setBuff_self]
    exact ⟨hsome, hx⟩
  · rw [World.buffAt_setBuff_of_ne w hcb]
    exact hw.1 i c hc

section Agreement

variable {bound : ℕ} {act act' : Act → Run Unit} {fuel : ℕ}

theorem agree_of_bland {α : Type} {x : Run α} (h : blandTrack.Follows x) : Agree (World.CalmWithin which bound) x x := by
  refine agree_self fun w hw => wp_mono (h w) (fun _ w' hok => ?_) fun _ _ _ => trivial
  exact ⟨Bland.calm hok hw.1, (Bland.living hok).trans_le hw.2⟩

theorem agree_of_aside {α : Type} {x : Run α} (h : asideTrack.Follows x) : Agree (World.CalmWithin which bound) x x :=
  agree_of_bland (bland_of_aside h)

theorem agreeAt_getMatch {α : Type} {I : World → Prop} {w : World} {f g : Match → Run α}
    (h : ∀ m, w.sceneMatch = some m → AgreeAt I (f m) (g m) w) : AgreeAt I (getMatch >>= f) (getMatch >>= g) w := by
  have hget : wp getMatch (fun m w' => w' = w ∧ w.sceneMatch = some m) (fun _ _ => True) w :=
    wp_getMatch.2 ⟨fun m hm => ⟨rfl, hm⟩, fun _ => trivial⟩
  refine AgreeAt.of_wp hget fun m w' ⟨hsame, hm⟩ => ?_
  rw [hsame]
  exact h m hm

theorem agreeAt_assertion {α : Type} {I : World → Prop} {w : World} {p : Prop} [Decidable p] {f : Func} {x y : Run α}
    (h : p → AgreeAt I x y w) : AgreeAt I (do assertion p f; x) (do assertion p f; y) w := by
  have hassertion : wp (assertion p f) (fun _ w' => w' = w ∧ p) (fun _ _ => True) w :=
    (wp_assertion _ _).2 ⟨fun hp => ⟨rfl, hp⟩, fun _ => trivial⟩
  refine AgreeAt.of_wp hassertion fun _ w' ⟨hsame, hp⟩ => ?_
  rw [hsame]
  exact h hp

theorem agree_throw {α : Type} (f : Fault) : Agree (World.CalmWithin which bound) (throw f : Run α) (throw f) :=
  fun _ _ => agreeAt_throw f

/-- A new buff has a row of the table. -/
theorem wp_buffNew_within (hmild : env.Mild which) (e baseid layers : ℤ) {w : World} (hw : w.CalmWithin which bound) :
    wp (buffNew env e baseid layers) (fun b w' => w'.CalmWithin which bound ∧
      (w'.buffAt b).base.scriptFunc.isSome ∧ (w'.buffAt b).base.Mild which) (fun _ _ => True) w := by
  simp only [buffNew, wp_bind, wp_get, wp_modify]
  split
  · trivial
  · rename_i base hrow
    rw [wp_bind, wp_assertion]
    refine ⟨fun hsome => ?_, fun _ => trivial⟩
    have hnew : World.CalmWithin which bound (({ w with nextBuff := w.nextBuff + 1 } : World).setBuff w.nextBuff
        { entity := e, baseid := baseid, base := base, layers := 0 }) :=
      World.CalmWithin.setBuff ⟨hw.1, hw.2⟩ hsome (hmild baseid base hrow)
    rw [wp_bind, wp_modify, wp_bind]
    refine wp_mono (bland_layersAdd w.nextBuff layers _) (fun _ w' hok => ?_) fun _ _ _ => trivial
    have hbase : (w'.buffAt w.nextBuff).base = base := by
      rw [hok.base, World.buffAt_setBuff_self]
    rw [wp_pure, hbase]
    exact ⟨⟨Bland.calm hok hnew.1, (Bland.living hok).trans_le hnew.2⟩, hsome, hmild baseid base hrow⟩

section Silent

variable (hships : env.Ships which random)
include hships

/-- A dispatch of nil is answered by nobody. -/
theorem agree_breakpoint_nil (e : ℤ) : Agree (World.CalmWithin which bound) (breakpoint env act e none none none)
    (breakpoint env act' e none none none) := by
  intro w hw
  have hsilent := hw.1.silent hships e
  refine ⟨by rw [breakpoint_silent hsilent, breakpoint_silent hsilent], ?_⟩
  rw [wp_ok (breakpoint_silent hsilent)]
  exact hw

theorem agree_buffRemove (e b : ℤ) :
    Agree (World.CalmWithin which bound) (buffRemove env act e b) (buffRemove env act' e b) := by
  refine (agree_of_aside (aside_getPack e)).bind fun p => (agree_of_aside (aside_assertion _ _)).bind fun _ => ?_
  refine (agree_breakpoint_nil hships e).bind fun _ => (agree_of_aside (aside_getPack e)).bind fun p => ?_
  refine Agree.ite (fun _ => agree_throw _) fun _ => Agree.bind (agree_self fun w hw => ?_) fun _ =>
    agree_breakpoint_nil hships e
  exact hw.setPack fun c hc => hw.1 e c (List.mem_of_mem_erase hc)

theorem agree_modifyLayers (b layers : ℤ) :
    Agree (World.CalmWithin which bound) (modifyLayers env act b layers) (modifyLayers env act' b layers) := by
  refine (agree_of_bland (bland_layersAdd b layers)).bind fun _ => (agree_of_bland follows_get).bind fun w => ?_
  exact Agree.ite (fun _ => agree_buffRemove hships _ b) fun _ => agree_pure _

/-- `buff_add` puts a buff with a row of the table on the entity. -/
theorem agree_buffAdd (hmild : env.Mild which) (e baseid layers : ℤ) :
    Agree (World.CalmWithin which bound) (buffAdd env act e baseid layers) (buffAdd env act' e baseid layers) := by
  unfold buffAdd
  split
  · exact agree_throw _
  · rename_i base hbase
    refine (agree_of_aside (aside_getPack e)).bind fun p => Agree.ite (fun _ => agree_pure _) fun _ => ?_
    refine agree_get fun w hw => ?_
    split
    · exact agree_of_bland (bland_layersAdd _ _) w hw
    · refine (agree_breakpoint_nil hships e w hw).bind fun _ w hw => ?_
      refine AgreeAt.of_wp (wp_buffNew_within hmild e baseid layers hw) fun b w ⟨hw, hb⟩ => ?_
      refine AgreeAt.of_ok rfl rfl (agreeAt_assertion fun _ => ?_)
      refine AgreeAt.of_ok rfl rfl (agree_breakpoint_nil hships e _ (hw.setPack fun c hc => ?_))
      rcases List.mem_append.1 hc with hc | hc
      · exact hw.1 e c hc
      · rw [List.mem_singleton.1 hc]
        exact hb

theorem agree_unrealAttack (e attack : ℤ) :
    Agree (World.CalmWithin which bound) (unrealAttack env act e attack) (unrealAttack env act' e attack) := by
  refine (agree_of_bland follows_get).bind fun w => ?_
  split
  · refine Agree.ite (fun _ => ?_) fun _ => agree_pure _
    exact (agree_modifyLayers hships _ _).bind fun _ => agree_pure _
  · exact agree_pure _

theorem agree_wearArmor (e attack : ℤ) (b : Option ℤ) :
    Agree (World.CalmWithin which bound) (wearArmor env act e attack b) (wearArmor env act' e attack b) := by
  cases b with
  | none => exact agree_pure _
  | some b =>
    refine (agree_of_bland (bland_layersAdd _ _)).bind fun _ => (agree_of_bland follows_get).bind fun w => ?_
    exact Agree.ite (fun _ => agree_buffRemove hships e b) fun _ => agree_pure _

theorem agree_breakArmor (e : ℤ) (b : Option ℤ) :
    Agree (World.CalmWithin which bound) (breakArmor env act e b) (breakArmor env act' e b) := by
  cases b with
  | none => exact agree_pure _
  | some b => exact agree_buffRemove hships e b

theorem agree_addARMBuffByCard (hmild : env.Mild which) (e amount : ℤ) : Agree (World.CalmWithin which bound)
    (addARMBuffByCard env act e amount) (addARMBuffByCard env act' e amount) := by
  refine Agree.ite (fun _ => agree_pure _) fun _ => (agree_of_bland follows_get).bind fun w => ?_
  refine (agree_of_aside (aside_arith _)).bind fun value => (agree_of_aside (aside_assertion _ _)).bind fun _ => ?_
  exact agree_buffAdd hships hmild _ _ _

theorem agree_bleedTargets (hmild : env.Mild which) (player : ℤ) (targets : List ℤ) :
    Agree (World.CalmWithin which bound) (bleedTargets env act player targets) (bleedTargets env act' player targets) := by
  refine (agree_of_bland follows_get).bind fun w => Agree.ite (fun _ => Agree.forM fun id _ => ?_) fun _ => agree_pure _
  refine (agree_of_aside (aside_matchEntity id)).bind fun target => ?_
  split
  · exact agree_throw _
  · exact agree_buffAdd hships hmild _ _ _

end Silent

section Breakpoints

variable (hships : env.Ships which random)
  (hact : ∀ a, a.Shipped → Agree (World.CalmWithin which bound) (act a) (act' a))
include hships hact

theorem agree_callScript (f : Option ScriptFunc) (call : ScriptCall) :
    Agree (World.CalmWithin which bound) (callScript env act f call) (callScript env act' f call) := by
  cases f with
  | none => exact agree_throw _
  | some f =>
    refine (agree_of_bland follows_get).bind fun w => Agree.forM fun a ha => hact a ?_
    cases hbuff : call.buff with
    | none => exact hships.card f call w hbuff a ha
    | some b =>
      rw [hships.buff f call w b hbuff] at ha
      exact (BuffFunc.own_acts _ ha).shipped

theorem agree_breakpoint (e : ℤ) (card pick : Option ℤ) (bp : Option BreakPoint) :
    Agree (World.CalmWithin which bound) (breakpoint env act e card pick bp) (breakpoint env act' e card pick bp) := by
  -- The loop over the buffs, after the script of the card.
  have hbuffs (pick : Option ℤ) : Agree (World.CalmWithin which bound)
      (do (env.pairs (← getPack e).buffs).forM fun b => do
        let w ← get
        let base := (w.buffAt b).base
        if b ∈ (w.pack e).buffs ∧ base.enableScript then
          callScript env act base.scriptFunc { entity := e, card := card, buff := some b, pick := pick, bp := bp })
      (do (env.pairs (← getPack e).buffs).forM fun b => do
        let w ← get
        let base := (w.buffAt b).base
        if b ∈ (w.pack e).buffs ∧ base.enableScript then
          callScript env act' base.scriptFunc { entity := e, card := card, buff := some b, pick := pick, bp := bp }) := by
    refine (agree_of_aside (aside_getPack e)).bind fun p => Agree.forM fun b _ => ?_
    refine (agree_of_bland follows_get).bind fun w => ?_
    exact Agree.ite (fun _ => agree_callScript hships hact _ _) fun _ => agree_pure _
  refine (agree_of_aside (aside_pickEntity pick)).bind fun pick => ?_
  cases card with
  | none => exact hbuffs pick
  | some c =>
    refine (agree_of_bland follows_get).bind fun w => ?_
    exact Agree.ite (fun _ => (agree_callScript hships hact _ _).bind fun _ => hbuffs pick) fun _ => hbuffs pick

theorem agree_cardDeal (e : ℤ) : Agree (World.CalmWithin which bound) (cardDeal env act e) (cardDeal env act' e) := by
  refine (agree_of_bland follows_get).bind fun w => Agree.ite (fun _ => agree_pure _) fun _ => ?_
  refine (agree_breakpoint hships hact _ _ _ _).bind fun _ => (agree_of_aside (aside_getPack e)).bind fun p => ?_
  refine (agree_of_aside (aside_assertion _ _)).bind fun _ => (agree_of_aside (aside_dealCards _ _)).bind fun _ => ?_
  exact agree_breakpoint hships hact _ _ _ _

theorem agree_roundBegin (e : ℤ) :
    Agree (World.CalmWithin which bound) (roundBegin env act e) (roundBegin env act' e) := by
  have hrest := (agree_breakpoint hships hact e none none (some .roundBeginZ)).bind fun _ => agree_cardDeal hships hact e
  refine (agree_of_bland follows_get).bind fun w => Agree.ite (fun _ => agree_pure _) fun _ => ?_
  refine (agree_breakpoint hships hact _ _ _ _).bind fun _ => (agree_of_bland follows_get).bind fun w => ?_
  refine (agree_of_aside (aside_assertion _ _)).bind fun _ => ?_
  exact Agree.ite (fun _ => (agree_of_aside (aside_attributeAdd .mp e _)).bind fun _ => hrest) fun _ => hrest

theorem agree_beginRound (f : Func) :
    Agree (World.CalmWithin which bound) (beginRound env act f) (beginRound env act' f) := by
  refine (agree_of_bland follows_get).bind fun w => (agree_of_aside aside_getMatch).bind fun m => ?_
  split
  · exact agree_throw _
  · refine Agree.ite (fun _ => agree_throw _) fun _ => (agree_of_aside (aside_record _)).bind fun _ => ?_
    exact agree_roundBegin hships hact _

end Breakpoints

/-! ### Deaths -/

section Deaths

variable (hships : env.Ships which random)
  (hact : ∀ bound' < bound, ∀ a, a.Shipped → Agree (World.CalmWithin which bound') (act a) (act' a))
include hships hact

/-- The turn of a dead entity is handed over. -/
theorem agreeAt_matchRoundEnd {e : ℤ} {w : World} (hcalm : w.Calm which) (hlt : w.living < bound)
    (hdeath : (w.entityAt e).death = true) :
    AgreeAt (World.CalmWithin which bound) (matchRoundEnd env act fuel e) (matchRoundEnd env act' fuel e) w := by
  have hw : w.CalmWithin which w.living := ⟨hcalm, le_rfl⟩
  refine AgreeAt.mono (I := World.CalmWithin which w.living) ?_ fun w' hw' => ⟨hw'.1, hw'.2.trans hlt.le⟩
  have hend (act : Act → Run Unit) : roundEnd env act fuel e w = .ok () w := by
    show (if _ then pure () else _ : Run Unit) w = _
    rw [if_pos hdeath]
    rfl
  -- What follows the end of the round.
  have hrest : Agree (World.CalmWithin which w.living)
      (do
        let m ← getMatch
        nextRoundEntity
        record (.turnEnd e (m.isdone || m.roundEntityid ≠ some e))
        beginRound env act .roundEnd)
      (do
        let m ← getMatch
        nextRoundEntity
        record (.turnEnd e (m.isdone || m.roundEntityid ≠ some e))
        beginRound env act' .roundEnd) := by
    refine (agree_of_aside aside_getMatch).bind fun m => (agree_of_aside aside_nextRoundEntity).bind fun _ => ?_
    exact (agree_of_aside (aside_record _)).bind fun _ => agree_beginRound hships (hact _ hlt) _
  refine agreeAt_getMatch fun m _ => agreeAt_assertion fun _ => AgreeAt.ite (fun _ => agreeAt_pure _ hw) fun _ => ?_
  refine AgreeAt.ite (fun _ => ?_) fun _ => hrest w hw
  exact AgreeAt.of_ok (hend act) (hend act') (hrest w hw)

theorem agreeAt_dieEntity {e : ℤ} {w : World} (hcalm : w.Calm which)
    (hlt : ∀ m, w.sceneMatch = some m → e ∈ m.entities → w.living < bound) :
    AgreeAt (World.CalmWithin which bound) (dieEntity env act fuel e) (dieEntity env act' fuel e) w := by
  refine AgreeAt.of_ok rfl rfl (agreeAt_getMatch fun m hm => agreeAt_assertion fun _ => ?_)
  refine agreeAt_assertion fun he => agreeAt_assertion fun hdeath => ?_
  have hlt := hlt m hm he
  refine AgreeAt.ite (fun _ => agree_of_aside (aside_done _) w ⟨hcalm, hlt.le⟩) fun _ => ?_
  refine AgreeAt.ite (fun _ => ?_) fun _ => agreeAt_pure _ ⟨hcalm, hlt.le⟩
  exact agreeAt_matchRoundEnd hships hact hcalm hlt hdeath

theorem agree_toDie (e : ℤ) :
    Agree (World.CalmWithin which bound) (toDie env act fuel e) (toDie env act' fuel e) := by
  intro w hw
  refine AgreeAt.of_ok rfl rfl (AgreeAt.ite (fun _ => agreeAt_pure _ hw) fun hliving => ?_)
  refine AgreeAt.of_ok rfl rfl (AgreeAt.of_ok rfl rfl ?_)
  show AgreeAt _ _ _ (w.markDead e)
  have hdead : (w.markDead e).Calm which := by
    intro i b hb
    refine hw.1 i b ?_
    rwa [World.pack, World.entityAt_markDead] at hb
  cases hscene : w.scene with
  | none => exact agreeAt_throw _
  | some s =>
    refine AgreeAt.ite (fun hsome => ?_) fun hnone => agreeAt_pure _ ⟨hdead, ?_⟩
    · refine agreeAt_dieEntity hships hact hdead fun m hm he => ?_
      have hfewer : (w.markDead e).living < w.living := by
        refine World.living_lt hm hm he (by simpa using hliving) ?_ fun i hi => ?_
        · simp [World.entityAt_markDead]
        · simp [World.entityAt_markDead, hi]
      exact hfewer.trans_le hw.2
    · have hmatch : (w.markDead e).sceneMatch = none := by
        show w.scene.bind Scene.sceneMatch = none
        rw [hscene]
        simpa using hnone
      rw [World.living, hmatch]
      exact Nat.zero_le _

/-- `hp_add`. -/
theorem agree_hpAdd (e value : ℤ) :
    Agree (World.CalmWithin which bound) (hpAdd env act fuel e value) (hpAdd env act' fuel e value) := by
  have hrest : Agree (World.CalmWithin which bound) (do if (← getPack e).hp = 0 then toDie env act fuel e)
      (do if (← getPack e).hp = 0 then toDie env act' fuel e) :=
    (agree_of_aside (aside_getPack e)).bind fun p => Agree.ite (fun _ => agree_toDie hships hact e) fun _ => agree_pure _
  refine Agree.ite (fun _ => agree_pure _) fun _ => ?_
  refine (agree_of_bland (bland_modifyPack (by intro; rfl))).bind fun _ => ?_
  exact Agree.ite (fun _ => (agree_breakpoint_nil hships e).bind fun _ => hrest) fun _ => hrest

/-! ### Damage and the settlement of cards -/

theorem agree_loseHp (e amount : ℤ) :
    Agree (World.CalmWithin which bound) (loseHp env act fuel e amount) (loseHp env act' fuel e amount) :=
  Agree.ite (fun _ => agree_pure _) fun _ => agree_hpAdd hships hact e _

theorem agree_sufferThorn (player target : ℤ) : Agree (World.CalmWithin which bound)
    (sufferThorn env act fuel player target) (sufferThorn env act' fuel player target) := by
  refine (agree_of_bland follows_get).bind fun w => ?_
  split
  · exact agree_pure _
  · refine Agree.ite (fun _ => ?_) fun _ => agree_pure _
    exact (agree_loseHp hships hact _ _).bind fun _ => agree_modifyLayers hships _ _

theorem agree_damageOne (e attack : ℤ) (damageType : CardDamageType) : Agree (World.CalmWithin which bound)
    (damageOne env act fuel e attack damageType) (damageOne env act' fuel e attack damageType) := by
  refine (agree_of_bland follows_get).bind fun w => Agree.ite (fun _ => agree_pure _) fun _ => ?_
  refine Agree.ite (fun _ => agree_pure _) fun _ => (agree_of_aside (aside_arith _)).bind fun ed => ?_
  refine (agree_unrealAttack hships _ _).bind fun attack => Agree.ite (fun _ => ?_) fun _ => ?_
  · refine (agree_of_bland follows_get).bind fun w => Agree.ite (fun _ => ?_) fun _ => ?_
    · exact (agree_wearArmor hships _ _ _).bind fun _ => agree_pure _
    · refine (agree_breakArmor hships _ _).bind fun _ => ?_
      exact (agree_loseHp hships hact _ _).bind fun _ => agree_pure _
  · exact (agree_loseHp hships hact _ _).bind fun _ => agree_pure _

theorem agree_settleDamageOne (player attack : ℤ) (damageType : CardDamageType) (id : ℤ) :
    Agree (World.CalmWithin which bound) (settleDamageOne env act fuel player attack damageType id)
      (settleDamageOne env act' fuel player attack damageType id) := by
  refine (agree_of_aside (aside_matchEntity id)).bind fun target => ?_
  split
  · exact agree_pure _
  · refine (agree_damageOne hships hact _ _ _).bind fun damage => (agree_of_aside (aside_gainArmor _ _)).bind fun _ => ?_
    exact agree_sufferThorn hships hact _ _

theorem agree_cardSettleDamage (player : ℤ) (targets : List ℤ) (base : CardBase) :
    Agree (World.CalmWithin which bound) (cardSettleDamage env act fuel player targets base)
      (cardSettleDamage env act' fuel player targets base) := by
  refine (agree_of_aside (aside_calcCardAttack _ _)).bind fun attack => Agree.forM fun _ _ => Agree.forM fun id _ => ?_
  exact agree_settleDamageOne hships hact _ _ _ _

variable (hmild : env.Mild which)
include hmild

theorem agree_settleTargetOne (c target : ℤ) : Agree (World.CalmWithin which bound)
    (settleTargetOne env act fuel c target) (settleTargetOne env act' fuel c target) := by
  have hbase (c : ℤ) : Agree (World.CalmWithin which bound) (cardBase c) (cardBase c) :=
    agree_of_bland (follows_get.bind fun _ => follows_pure _)
  have hadd (a : Attribute) (value : ℤ) : Agree (World.CalmWithin which bound) (attributeAdd a target value)
      (attributeAdd a target value) :=
    agree_of_aside (aside_attributeAdd a target value)
  refine (hbase c).bind fun base => (agree_hpAdd hships hact _ _).bind fun _ => ?_
  refine (hbase c).bind fun base => (hadd .mp _).bind fun _ => (hbase c).bind fun base => (hadd .strength _).bind fun _ => ?_
  refine (hbase c).bind fun base => (hadd .armor _).bind fun _ => (hbase c).bind fun base => (hadd .shield _).bind fun _ => ?_
  refine (hbase c).bind fun base => Agree.forM fun entry _ => Agree.ite (fun _ => ?_) fun _ => ?_
  · exact agree_addARMBuffByCard hships hmild _ _
  · exact agree_buffAdd hships hmild _ _ _

theorem agree_cardSettleTargetEffect (c : ℤ) (targets : List ℤ) : Agree (World.CalmWithin which bound)
    (cardSettleTargetEffect env act fuel c targets) (cardSettleTargetEffect env act' fuel c targets) := by
  induction targets with
  | nil => exact agree_pure _
  | cons id ids ih =>
    refine (agree_of_aside (aside_matchEntity id)).bind fun target => ?_
    split
    · exact agree_pure _
    · exact (agree_settleTargetOne hships hact hmild _ _).bind fun _ => ih

theorem agree_settleOnce (player c : ℤ) (targets : List ℤ) : Agree (World.CalmWithin which bound)
    (settleOnce env act fuel player c targets) (settleOnce env act' fuel player c targets) := by
  have hbase : Agree (World.CalmWithin which bound) (cardBase c) (cardBase c) :=
    agree_of_bland (follows_get.bind fun _ => follows_pure _)
  have heffects : Agree (World.CalmWithin which bound)
      (do cardSettleTargetEffect env act fuel c (env.pairs targets); cardSettleSelfEffect env player c)
      (do cardSettleTargetEffect env act' fuel c (env.pairs targets); cardSettleSelfEffect env player c) :=
    (agree_cardSettleTargetEffect hships hact hmild c _).bind fun _ => agree_of_aside (aside_cardSettleSelfEffect _ _)
  have hbleeding : Agree (World.CalmWithin which bound) (bleedTargets env act player targets)
      (bleedTargets env act' player targets) := agree_bleedTargets hships hmild player targets
  have hbleed := hbase.bind fun base => Agree.ite (c := base.category = .aggressive)
    (fun _ => hbleeding.bind fun _ => heffects) fun _ => heffects
  refine hbase.bind fun base => Agree.ite (fun _ => ?_) fun _ => hbleed
  exact (agree_cardSettleDamage hships hact _ _ _).bind fun _ => hbleed

theorem agree_useCard (player c : ℤ) (pick : Option ℤ) : Agree (World.CalmWithin which bound)
    (useCard env act fuel player c pick) (useCard env act' fuel player c pick) := by
  refine (agree_of_aside (aside_cardGetTargets _ _ _)).bind fun targets => (agree_of_bland follows_get).bind fun w => ?_
  split
  · exact agree_settleOnce hships hact hmild _ _ _
  · refine Agree.ite (fun _ => ?_) fun _ => agree_settleOnce hships hact hmild _ _ _
    refine (Agree.forM fun _ _ => agree_settleOnce hships hact hmild _ _ _).bind fun _ => ?_
    exact agree_buffRemove hships _ _

/-- An act that scripts do, whatever is done deeper with fewer entities that live. -/
theorem agree_performWith {a : Act} (ha : a.Shipped) : Agree (World.CalmWithin which bound)
    (performWith env act fuel a) (performWith env act' fuel a) := by
  cases a with
  | hpAdd e value => exact agree_hpAdd hships hact e value
  | mpAdd e value => exact agree_of_aside (aside_attributeAdd .mp e value)
  | buffAdd e baseid layers => exact agree_buffAdd hships hmild e baseid layers
  | buffRemove e b => exact agree_buffRemove hships e b
  | modifyLayers b layers => exact agree_modifyLayers hships b layers
  | stackHoldNewone e baseid => exact agree_of_aside (aside_stackHoldNewone e baseid)
  | damageOne e attack damageType => exact (agree_damageOne hships hact e attack damageType).map _
  | useCard player c pick => exact agree_useCard hships hact hmild player c pick
  | raise => exact agree_throw _
  | _ => exact ha.elim

end Deaths

end Agreement

/-- Acts to a depth agree where fewer entities live. -/
theorem agree_performTo (hships : env.Ships which random) (hmild : env.Mild which) (cut cut' : Act → Run Unit) (n : ℕ) :
    ∀ bound < n, ∀ a : Act, a.Shipped →
      Agree (World.CalmWithin which bound) (performTo env cut n a) (performTo env cut' n a) := by
  induction n with
  | zero => exact fun _ h => absurd h (Nat.not_lt_zero _)
  | succ n ih =>
    intro bound hbound a ha
    exact agree_performWith hships (fun bound' h => ih bound' (by omega)) hmild ha

/-- With mild rows every call comes to an end. -/
theorem DispatchCall.terminates_of_mild (hships : env.Ships which random) (hmild : env.Mild which) {w : World}
    (hw : w.Calm which) (e : ℤ) (call : DispatchCall) : call.Terminates env e w := by
  refine ⟨w.living + 1, fun cut cut' => ?_⟩
  have hact := agree_performTo hships hmild cut cut' (w.living + 1)
  have hwithin : w.CalmWithin which w.living := ⟨hw, le_rfl⟩
  cases call with
  | hpAdd value => exact (agree_hpAdd hships (fun bound h => hact bound (by omega)) e value w hwithin).1
  | buffAdd baseid layers => exact (agree_buffAdd hships hmild e baseid layers w hwithin).1
  | buffRemove b => exact (agree_buffRemove hships e b w hwithin).1
  | breakpoint card pick bp => exact (agree_breakpoint hships (hact _ (by omega)) e card pick bp w hwithin).1

/-- With mild rows a script that does something names the breakpoint. -/
theorem DispatchCall.distinguished_of_mild {w : World} (hw : w.Calm which) (e : ℤ) (call : DispatchCall) :
    call.Distinguished env which random e w := by
  intro d hd b hb henable f hf hacts
  obtain ⟨hne, hparams⟩ := (hw e b hb).2 henable f hf
  obtain ⟨bp, hbp, hpassed⟩ := BuffFunc.mem_names hne hparams hacts
  -- What is passed is nil or the breakpoint itself.
  have hsame : d.2 = some bp → d.1 = bp := by
    intro h
    cases call with
    | hpAdd value =>
      simp only [dispatches] at hd
      split_ifs at hd
      · rw [List.mem_singleton.1 hd] at h
        cases h
      · cases hd
    | buffAdd baseid layers => rcases List.mem_pair.1 hd with rfl | rfl <;> cases h
    | buffRemove b => rcases List.mem_pair.1 hd with rfl | rfl <;> cases h
    | breakpoint card pick bp' =>
      cases bp' with
      | none => cases hd
      | some bp' =>
        rw [List.mem_singleton.1 hd] at h ⊢
        exact Option.some.inj h
  rw [hsame hpassed]
  exact hbp

/-! ### Rows that are not mild -/

/-- The entity has one buff, with at most one layer, that runs `multArmor`. -/
structure World.Armored (w : World) (which : ScriptFunc → BuffFunc) (e b : ℤ) : Prop where
  buffs : (w.pack e).buffs = [b]
  entity : (w.buffAt b).entity = e
  enable : (w.buffAt b).base.enableScript = true
  func : ∃ f, (w.buffAt b).base.scriptFunc = some f ∧ which f = .multArmor
  layers : (w.buffAt b).layers ≤ 1
  clamped : (w.buffAt b).base.enableNegativeLayer = false ∧ 0 ≤ (w.buffAt b).base.maxLayers

section Endless

variable {act : Act → Run Unit} {e b : ℤ} {w : World} {f : Fault}

/-- No layer is left, and the buff is still there. -/
theorem World.Armored.addLayers (h : w.Armored which e b) :
    World.Armored (w.setBuff b ((w.buffAt b).addLayers (-1))) which e b ∧ ((w.buffAt b).addLayers (-1)).layers = 0 := by
  obtain ⟨hnegative, hmax⟩ := h.clamped
  have hlayers := h.layers
  have hzero : ((w.buffAt b).addLayers (-1)).layers = 0 := by
    simp only [Buff.addLayers, hnegative, true_and]
    split_ifs <;> omega
  have hbuff := World.buffAt_setBuff_self w b ((w.buffAt b).addLayers (-1))
  refine ⟨⟨h.buffs, by rw [hbuff]; exact h.entity, by rw [hbuff]; exact h.enable, by rw [hbuff]; exact h.func, ?_,
    by rw [hbuff]; exact h.clamped⟩, hzero⟩
  rw [hbuff, hzero]
  exact zero_le_one

/-- The script of the buff answers to nil. -/
theorem breakpoint_armored (hships : env.Ships which random) (h : w.Armored which e b)
    {w' : World} (hact : act (.modifyLayers b (-1)) w = .error f w') : breakpoint env act e none none none w = .error f w' := by
  obtain ⟨func, hfunc, hwhich⟩ := h.func
  have hpairs : env.pairs (w.pack e).buffs = [b] := by
    rw [h.buffs]
    exact List.perm_singleton.1 (env.pairs_perm [b])
  have hmem : b ∈ (w.pack e).buffs ∧ (w.buffAt b).base.enableScript = true :=
    ⟨by rw [h.buffs]; exact List.mem_singleton_self b, h.enable⟩
  have hscript : env.script func { entity := e, card := none, buff := some b, pick := none, bp := none } w =
      [.modifyLayers b (-1)] := by
    rw [hships.buff func _ w b rfl, hwhich]
    simp [BuffFunc.acts]
  show ((env.pairs (w.pack e).buffs).forM _ : Run Unit) w = _
  rw [hpairs]
  refine bind_of_error ?_
  show (if _ then callScript env act _ _ else pure ()) w = _
  rw [if_pos hmem, hfunc]
  show (env.script func _ w).forM act w = _
  rw [hscript]
  exact bind_of_error hact

/-- Whatever the depth, the script goes on below it. -/
theorem performTo_armored (hships : env.Ships which random) (n : ℕ) (h : w.Armored which e b) :
    ∃ w', performTo env (fun _ => throw f) n (.modifyLayers b (-1)) w = .error f w' := by
  induction n generalizing w with
  | zero => exact ⟨w, rfl⟩
  | succ n ih =>
    obtain ⟨hworn, hzero⟩ := h.addLayers
    obtain ⟨w', hw'⟩ := ih hworn
    refine ⟨w', ?_⟩
    have hbuff := World.buffAt_setBuff_self w b ((w.buffAt b).addLayers (-1))
    have hentity : ((w.buffAt b).addLayers (-1)).entity = e := h.entity
    show (if _ then buffRemove env _ _ b else pure () : Run Unit) _ = _
    rw [hbuff, if_pos hzero, hentity]
    refine (bind_of_ok (assertion_apply ?_ _)).trans (bind_of_error (breakpoint_armored hships hworn hw'))
    rw [hworn.buffs]
    exact List.mem_singleton_self b

/-- Damage to the entity does not come to an end. -/
theorem not_terminates_armored (hships : env.Ships which random) (h : w.Armored which e b) {value : ℤ} (hvalue : value < 0) :
    ¬ (DispatchCall.hpAdd value).Terminates env e w := by
  rintro ⟨n, hn⟩
  have herror (f : Fault) : ∃ w', hpAdd env (performTo env (fun _ => throw f) n) n e value w = .error f w' := by
    have hhurt : World.Armored (w.setPack e
        { w.pack e with hp := min (max ((w.pack e).hp + value) 0) (w.pack e).maxhp }) which e b :=
      ⟨by rw [World.pack_setPack_self]; exact h.buffs, h.entity, h.enable, h.func, h.layers, h.clamped⟩
    obtain ⟨w', hw'⟩ := performTo_armored (f := f) hships n hhurt
    refine ⟨w', ?_⟩
    rw [hpAdd, if_neg hvalue.ne]
    show (if value < 0 then _ else _ : Run Unit) _ = _
    rw [if_pos hvalue]
    exact bind_of_error (breakpoint_armored hships hhurt hw')
  obtain ⟨w₁, h₁⟩ := herror .timeout
  obtain ⟨w₂, h₂⟩ := herror .script
  have hsame := hn (fun _ => throw .timeout) fun _ => throw .script
  have hne : (EStateM.Result.error Fault.timeout w₁ : EStateM.Result Fault World Unit) = .error .script w₂ :=
    h₁.symm.trans (hsame.trans h₂)
  cases hne

end Endless

/-- A world where one entity has one buff. -/
def oneBuff (base : BuffBase) : World where
  entityAt := Function.update (fun _ => {}) 0 { pack := { buffs := [0], hp := 5, maxhp := 5 } }
  buffAt _ := { entity := 0, baseid := 0, base := base, layers := 1 }

theorem oneBuff_tabled {baseid : ℤ} {base : BuffBase} (hrow : env.buffTable baseid = some base)
    (hsome : base.scriptFunc.isSome) : (oneBuff base).Tabled env :=
  fun _ _ _ => ⟨hsome, baseid, hrow⟩

/-- **The scripts of buffs come to an end, and each of them answers only to breakpoints that it names, exactly
if no row that is enabled runs `multArmor` and the rows of the two scripts that read their parameters at every
breakpoint have them.** -/
theorem dispatch_terminates_iff (hships : env.Ships which random) :
    (∀ w : World, w.Tabled env → ∀ e (call : DispatchCall), call.Terminates env e w ∧
      call.Distinguished env which random e w) ↔ env.Mild which := by
  constructor
  · intro h baseid base hrow henable f hf
    have hworld : (oneBuff base).Tabled env := oneBuff_tabled hrow (by rw [hf]; rfl)
    have hnames (call : DispatchCall) (d : BreakPoint × Option BreakPoint) (hd : d ∈ call.dispatches)
        (hacts : (which f).acts env random 0 0 d.2 (oneBuff base) ≠ []) : d.1 ∈ (which f).names :=
      (h _ hworld 0 call).2 d hd 0 (List.mem_singleton_self 0) henable f hf hacts
    refine ⟨fun hwhich => ?_, fun hwhich => ?_⟩
    · have hname := hnames (.buffRemove 0) (.buffRemoveA, none) (List.mem_cons_self ..) (by
        rw [hwhich]
        simp [BuffFunc.acts])
      rw [hwhich] at hname
      revert hname
      decide
    · by_contra hparams
      have hshort : (((oneBuff base).buffAt 0).base).params.length < 2 := not_le.1 hparams
      have hname := hnames (.breakpoint none none (some .cardPlayA)) (.cardPlayA, some .cardPlayA)
        (List.mem_singleton_self _) (by
          rcases hwhich with hwhich | hwhich
          · rw [hwhich, BuffFunc.acts, if_pos hshort]
            exact List.cons_ne_nil _ _
          · rw [hwhich, BuffFunc.acts, if_pos hshort]
            exact List.cons_ne_nil _ _)
      rcases hwhich with hwhich | hwhich
      · rw [hwhich] at hname
        revert hname
        decide
      · rw [hwhich] at hname
        revert hname
        decide
  · intro hmild w hw e call
    have hcalm : w.Calm which := by
      intro i b hb
      obtain ⟨hsome, baseid, hrow⟩ := hw i b hb
      exact ⟨hsome, hmild baseid _ hrow⟩
    exact ⟨call.terminates_of_mild hships hmild hcalm e, call.distinguished_of_mild hcalm e⟩

/-- A table with one row, whose script is `f`. -/
def scriptEnv (f : BuffFunc) : Env where
  cardTable _ := none
  itemTable _ := none
  buffTable _ := some { enableScript := true }
  entityTable _ := none
  script _ call w := match call.buff with
    | some b => f.acts plainEnv (fun _ _ => 1) call.entity b call.bp w
    | none => []
  itemScript _ _ _ _ := []
  pairs := id
  pairs_perm := plainEnv.pairs_perm

theorem scriptEnv_ships {f : BuffFunc} (hf : ∀ e b bp w, f.acts plainEnv (fun _ _ => 1) e b bp w =
    f.acts (scriptEnv f) (fun _ _ => 1) e b bp w) : (scriptEnv f).Ships (fun _ => f) fun _ _ => 1 where
  buff _ call w b hb := by
    rw [← hf]
    simp only [scriptEnv, hb]
  card _ call w hb a ha := by
    simp only [scriptEnv, hb, List.not_mem_nil] at ha

/-- One layer of `multArmor`: damage does not come to an end, and the removal of the buff is answered. -/
theorem not_terminates_multArmor : (scriptEnv .multArmor).Ships (fun _ => .multArmor) (fun _ _ => 1) ∧
    (oneBuff { enableScript := true }).Tabled (scriptEnv .multArmor) ∧
    ¬ (DispatchCall.hpAdd (-1)).Terminates (scriptEnv .multArmor) 0 (oneBuff { enableScript := true }) ∧
    ¬ (DispatchCall.buffRemove 0).Distinguished (scriptEnv .multArmor) (fun _ => .multArmor) (fun _ _ => 1) 0
      (oneBuff { enableScript := true }) := by
  have hships : (scriptEnv .multArmor).Ships (fun _ => .multArmor) fun _ _ => 1 := scriptEnv_ships fun _ _ _ _ => rfl
  have harmored : (oneBuff { enableScript := true }).Armored (fun _ => .multArmor) 0 0 :=
    ⟨rfl, rfl, rfl, ⟨0, rfl, rfl⟩, le_rfl, rfl, by decide⟩
  refine ⟨hships, fun _ _ _ => ⟨rfl, 0, rfl⟩, not_terminates_armored hships harmored (by decide), fun h => ?_⟩
  have hname := h (.buffRemoveA, none) (List.mem_cons_self ..) 0 (List.mem_singleton_self 0) rfl 0 rfl
    (List.cons_ne_nil _ _)
  revert hname
  decide

/-- A table whose only script is `poison`. -/
theorem dispatch_terminates_poison : (scriptEnv .poison).Ships (fun _ => .poison) (fun _ _ => 1) ∧
    (oneBuff { enableScript := true }).Tabled (scriptEnv .poison) ∧
    ∀ w : World, w.Tabled (scriptEnv .poison) → ∀ e (call : DispatchCall), call.Terminates (scriptEnv .poison) e w ∧
      call.Distinguished (scriptEnv .poison) (fun _ => .poison) (fun _ _ => 1) e w := by
  have hships : (scriptEnv .poison).Ships (fun _ => .poison) fun _ _ => 1 := scriptEnv_ships fun _ _ _ _ => rfl
  refine ⟨hships, fun _ _ _ => ⟨rfl, 0, rfl⟩, (dispatch_terminates_iff hships).2 fun _ _ _ _ _ _ => ⟨?_, ?_⟩⟩
  · exact fun h => BuffFunc.noConfusion h
  · rintro (h | h) <;> cases h

end

end Slam.Game
