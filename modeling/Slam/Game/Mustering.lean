import Slam.Game.Conservation
import Slam.Game.Dismissal

/-!
# The start of a match

`Match.start` lets the entities enter one after the other. As nobody has a turn yet, an entity that enters
with no hit points dies without a turn being handed over, so that no script runs: an entity that enters changes
itself and, if it dies, whether the match is done (`wp_enterMatch_idle`). So each entity puts the very pack aside that
it had before the start (`Entering`), however far the start comes before it raises.
-/

namespace Slam.Game

open Raising Track

variable {env : Env} {act : Act → Run Unit} {fuel : ℕ} {e : ℤ} {P : Prop}

/-! ### One entity -/

/-- What an entity that enters may change: its pack, and whether it is dead. Its maxhp stays zero or more if the
pack that it brings has no less (`P`). Nobody has a turn. -/
structure Enters (e : ℤ) (P : Prop) (w w' : World) : Prop where
  others : ∀ i, i ≠ e → w'.entityAt i = w.entityAt i
  standing : (w'.entityAt e).standing = (w.entityAt e).standing
  span : (w'.pack e).span = (w.pack e).span
  maxhp : P → 0 ≤ (w.pack e).maxhp → 0 ≤ (w'.pack e).maxhp
  surroundings : w'.surroundings = w.surroundings
  onward : ∀ m, w.sceneMatch = some m → m.roundEntityid = none →
    ∃ m', w'.sceneMatch = some m' ∧ m.Onward m' ∧ m'.roundEntityid = none

theorem Enters.refl (w : World) : Enters e P w w :=
  ⟨fun _ _ => rfl, rfl, rfl, fun _ => id, rfl, fun m hm hidle => ⟨m, hm, .refl m, hidle⟩⟩

theorem Enters.trans {w w' w'' : World} (h : Enters e P w w') (h' : Enters e P w' w'') : Enters e P w w'' where
  others i hi := (h'.others i hi).trans (h.others i hi)
  standing := h'.standing.trans h.standing
  span := h'.span.trans h.span
  maxhp hP hm := h'.maxhp hP (h.maxhp hP hm)
  surroundings := h'.surroundings.trans h.surroundings
  onward m hm hidle := by
    obtain ⟨m', hm', honward, hidle'⟩ := h.onward m hm hidle
    obtain ⟨m'', hm'', honward', hidle''⟩ := h'.onward m' hm' hidle'
    exact ⟨m'', hm'', honward.trans honward', hidle''⟩

/-- The track of an entity that enters. -/
def entersTrack (e : ℤ) (P : Prop) : Track Fault World where
  ok := Enters e P
  error _ := Enters e P
  refl := .refl
  trans := .trans
  trans_error := .trans

theorem enters_throw {α : Type} (f : Fault) : (entersTrack e P).Follows (throw f : Run α) := follows_throw .refl

theorem enters_assertion (p : Prop) [Decidable p] (f : Func) : (entersTrack e P).Follows (assertion p f) :=
  Follows.ite (fun _ => follows_pure _) fun _ => enters_throw _

/-- Entities and the scene stay. -/
theorem enters_modify {f : World → World} (hentity : ∀ w, (f w).entityAt = w.entityAt)
    (hsurroundings : ∀ w, (f w).surroundings = w.surroundings) (hscene : ∀ w, (f w).scene = w.scene) :
    (entersTrack e P).Follows (modify f : Run PUnit) := by
  refine follows_modify fun w => ⟨fun i _ => by rw [hentity], by rw [hentity], ?_, fun _ => ?_, hsurroundings w, ?_⟩
  · rw [World.pack, hentity]
    rfl
  · rw [World.pack, World.pack, hentity]
    exact id
  · intro m hm hidle
    exact ⟨m, by rw [World.sceneMatch, hscene]; exact hm, .refl m, hidle⟩

theorem enters_modifyPack {f : Pack → Pack} (hspan : ∀ p, (f p).span = p.span)
    (hmaxhp : P → ∀ p, 0 ≤ p.maxhp → 0 ≤ (f p).maxhp) : (entersTrack e P).Follows (modifyPack e f) := by
  refine follows_modify fun w => ⟨fun i hi => ?_, ?_, ?_, fun hP hm => ?_, rfl, fun m hm hidle => ⟨m, hm, .refl m, hidle⟩⟩
  · exact World.entityAt_setEntity_of_ne _ hi _
  · rw [World.entityAt_setPack]
    rfl
  · rw [World.pack_setPack_self]
    exact hspan _
  · rw [World.pack_setPack_self]
    exact hmaxhp hP _ hm

theorem enters_cardNew (baseid : ℤ) : (entersTrack e P).Follows (cardNew env baseid) := by
  refine follows_get.bind fun w => (enters_modify (by intro; rfl) (by intro; rfl) (by intro; rfl)).bind fun _ => ?_
  split
  · exact enters_throw _
  · refine (enters_modify (by intro; rfl) (by intro; rfl) (by intro; rfl)).bind fun _ => ?_
    exact (enters_assertion _ _).bind fun _ => follows_pure _

theorem enters_itemNew (baseid number : ℤ) : (entersTrack e P).Follows (itemNew env baseid number) := by
  rw [itemNew]
  split
  · exact enters_throw _
  · refine follows_get.bind fun w => ?_
    refine (enters_modify (by intro; rfl) (by intro; rfl) (by intro; rfl)).bind fun _ => ?_
    refine (enters_modify (by intro; rfl) (by intro; rfl) (by intro; rfl)).bind fun _ => ?_
    exact (enters_assertion _ _).bind fun _ => follows_pure _

theorem enters_notifyClient : (entersTrack e P).Follows (notifyClient env e) := by
  refine (told_notifyClient e).mono ?_ fun _ _ _ hfalse => hfalse.elim
  rintro w w' ⟨calls, rfl⟩
  exact ⟨fun _ _ => rfl, rfl, rfl, fun _ => id, rfl, fun m hm hidle => ⟨m, hm, .refl m, hidle⟩⟩

/-- The entity takes over the pack that it brings. -/
theorem enters_delivery (src : Pack) (h : P → 0 ≤ src.maxhp) :
    (entersTrack e P).Follows (delivery env src .match (modifyPack e)) := by
  refine (enters_assertion _ _).bind fun _ => Follows.ite (fun _ => ?_) fun _ => ?_
  · refine Follows.bind (enters_modifyPack (by intro; rfl) fun hP _ _ => h hP) fun _ => ?_
    refine (Follows.forM fun c _ => ?_).bind fun _ => (Follows.forM fun i _ => ?_).bind fun _ => ?_
    · refine follows_get.bind fun w => (enters_cardNew _).bind fun new => ?_
      exact enters_modifyPack (by intro; rfl) fun _ _ hp => hp
    · refine follows_get.bind fun w => (enters_itemNew _ _).bind fun new => ?_
      exact enters_modifyPack (by intro; rfl) fun _ _ hp => hp
    · refine (Follows.forM fun x _ => ?_).bind fun _ => enters_modifyPack (by intro; rfl) fun _ _ hp => hp
      refine follows_get.bind fun w => (enters_itemNew _ _).bind fun new => ?_
      exact enters_modifyPack (by intro; rfl) fun _ _ hp => hp
  · exact enters_modifyPack (by intro; rfl) fun hP _ _ => h hP

/-- As long as nobody has a turn, a death is only told to the match. -/
theorem wp_toDie_idle {w : World} {m : Match} (hm : w.sceneMatch = some m) (hidle : m.roundEntityid = none) :
    wp (toDie env act fuel e) (fun _ w' => Enters e P w w') (fun _ w' => Enters e P w w') w := by
  have hdead : Enters e P w (w.markDead e) := by
    refine ⟨fun i hi => ?_, ?_, ?_, fun _ => ?_, rfl, fun m hm hidle => ⟨m, hm, .refl m, hidle⟩⟩
    · exact World.entityAt_setEntity_of_ne _ hi _
    · rw [World.entityAt_markDead]
      rfl
    · rw [World.pack_markDead]
    · rw [World.pack_markDead]
      exact id
  have hmatch : (w.markDead e).sceneMatch = some m := hm
  rw [toDie, wp_bind, wp_get, wp_ite]
  refine ⟨fun _ => .refl w, fun _ => ?_⟩
  rw [wp_bind, wp_modifyEntity, wp_bind, wp_record]
  show wp _ _ _ (w.markDead e)
  split
  · exact hdead
  · rw [wp_ite]
    refine ⟨fun _ => ?_, fun _ => hdead⟩
    rw [dieEntity, wp_bind, wp_get, wp_bind, wp_getMatch]
    refine ⟨fun m' hm' => ?_, fun _ => hdead⟩
    obtain rfl : m = m' := Option.some.inj (hmatch.symm.trans hm')
    rw [wp_bind, wp_assertion]
    refine ⟨fun hdone => ?_, fun _ => hdead⟩
    rw [wp_bind, wp_assertion]
    refine ⟨fun _ => ?_, fun _ => hdead⟩
    rw [wp_bind, wp_assertion]
    refine ⟨fun _ => ?_, fun _ => hdead⟩
    rw [wp_ite]
    refine ⟨fun _ => ?_, fun _ => ?_⟩
    · refine wp_done hmatch hdone (fun _ => hdead.trans ?_) fun _ => hdead
      refine ⟨fun _ _ => rfl, rfl, rfl, fun _ => id, (Underway.decided hmatch hdone _).surroundings, ?_⟩
      intro m' hm' hidle'
      obtain ⟨m'', hm'', honward⟩ := (Underway.decided hmatch hdone _).onward m' hm'
      refine ⟨m'', hm'', honward, ?_⟩
      rw [World.decided, World.sceneMatch_mapMatch, hm', Option.map_some] at hm''
      rw [← Option.some.inj hm'']
      exact hidle'
    · rw [wp_ite]
      refine ⟨fun hturn => ?_, fun _ => hdead⟩
      rw [hidle] at hturn
      cases hturn

/-- **What an entity does that enters**, whether it gets through or not. -/
theorem wp_enterMatch_idle {w : World} {m : Match} (hm : w.sceneMatch = some m) (hidle : m.roundEntityid = none)
    (hout : (w.entityAt e).backup = none) :
    wp (enterMatch env act fuel e) (fun _ w' => Enters e (0 ≤ (w.pack e).maxhp) (w.putAside e) w')
      (fun _ w' => Enters e (0 ≤ (w.pack e).maxhp) (w.putAside e) w') w := by
  rw [enterMatch, wp_bind, wp_get]
  dsimp only
  rw [wp_bind, wp_assertion]
  refine ⟨fun _ => ?_, fun hin => absurd hout hin⟩
  rw [wp_bind, wp_modifyEntity, wp_bind]
  show wp _ _ _ (w.putAside e)
  refine wp_mono (enters_delivery (P := 0 ≤ (w.pack e).maxhp) (w.pack e) id (w.putAside e)) ?_ fun _ _ h => h
  intro _ u hu
  obtain ⟨m', hm', -, hidle'⟩ := hu.onward m hm hidle
  rw [wp_bind, wp_getPack, wp_ite]
  refine ⟨fun _ => ?_, fun _ => ?_⟩
  · exact wp_mono (wp_toDie_idle hm' hidle') (fun _ _ h => hu.trans h) fun _ _ h => hu.trans h
  · have hinsert (c : ℤ) : (entersTrack e (0 ≤ (w.pack e).maxhp)).Follows (stackDealInsert e c) := by
      refine (follows_get.bind fun _ => follows_pure _).bind fun p => (enters_assertion _ _).bind fun _ => ?_
      refine (enters_modify (by intro; rfl) (by intro; rfl) (by intro; rfl)).bind fun _ => ?_
      exact enters_modifyPack (by intro; rfl) fun _ _ hp => hp
    have hrest : (entersTrack e (0 ≤ (w.pack e).maxhp)).Follows (do
        notifyClient env e
        (env.pairs (← getPack e).cards).forM fun c => do
          stackDealInsert e c
          modifyPack e fun p => { p with dealt := p.dealt ++ [c] }) := by
      refine enters_notifyClient.bind fun _ => (follows_get.bind fun _ => follows_pure _).bind fun p => ?_
      refine Follows.forM fun c _ => (hinsert c).bind fun _ => ?_
      exact enters_modifyPack (by intro; rfl) fun _ _ hp => hp
    exact wp_mono (hrest u) (fun _ _ h => hu.trans h) fun _ _ h => hu.trans h

/-! ### All entities -/

/-- The entities of the list have entered the match, each from the pack that it had in `w`, and nobody has a turn. -/
structure Entering (w : World) (m : Match) (l : List ℤ) (u : World) : Prop where
  standing : ∀ e ∈ l, (u.entityAt e).standing = { (w.entityAt e).standing with backup := some (w.pack e) }
  span : ∀ e ∈ l, (u.pack e).span = .match
  maxhp : ∀ e ∈ l, 0 ≤ (w.pack e).maxhp → 0 ≤ (u.pack e).maxhp
  others : ∀ e, e ∉ l → u.entityAt e = w.entityAt e
  surroundings : u.surroundings = w.surroundings
  onward : ∃ m', u.sceneMatch = some m' ∧ m.Onward m' ∧ m'.roundEntityid = none

namespace Entering

variable {w u u' : World} {m : Match} {l : List ℤ}

theorem nil (hm : w.sceneMatch = some m) (hidle : m.roundEntityid = none) : Entering w m [] w where
  standing _ he := absurd he List.not_mem_nil
  span _ he := absurd he List.not_mem_nil
  maxhp _ he := absurd he List.not_mem_nil
  others _ _ := rfl
  surroundings := rfl
  onward := ⟨m, hm, .refl m, hidle⟩

/-- One more entity enters. -/
theorem concat (h : Entering w m l u) (he : e ∉ l) (henters : Enters e (0 ≤ (u.pack e).maxhp) (u.putAside e) u') :
    Entering w m (l ++ [e]) u' := by
  have hself : u.entityAt e = w.entityAt e := h.others e he
  have hpack : u.pack e = w.pack e := World.pack_congr hself
  have haside : (u.putAside e).entityAt e = { u.entityAt e with backup := some (u.pack e), pack := { span := .match } } :=
    World.entityAt_setEntity_self ..
  have hold {i : ℤ} (hi : i ∈ l) : u'.entityAt i = u.entityAt i := by
    have hne : i ≠ e := fun heq => he (heq ▸ hi)
    rw [henters.others i hne]
    exact World.entityAt_setEntity_of_ne _ hne _
  have hcases {i : ℤ} (hi : i ∈ l ++ [e]) : i ∈ l ∨ i = e := by simpa using hi
  refine ⟨fun i hi => ?_, fun i hi => ?_, fun i hi => ?_, fun i hi => ?_, ?_, ?_⟩
  · rcases hcases hi with hi | rfl
    · rw [hold hi]
      exact h.standing i hi
    · rw [henters.standing, haside, hself, hpack]
      rfl
  · rcases hcases hi with hi | rfl
    · rw [World.pack_congr (hold hi)]
      exact h.span i hi
    · rw [henters.span, World.pack, haside]
  · rcases hcases hi with hi | rfl
    · rw [World.pack_congr (hold hi)]
      exact h.maxhp i hi
    · intro hmaxhp
      refine henters.maxhp (hpack ▸ hmaxhp) ?_
      rw [World.pack, haside]
  · have hi' : i ∉ l ∧ i ≠ e := by simpa using hi
    rw [henters.others i hi'.2, World.putAside, World.entityAt_setEntity_of_ne _ hi'.2, h.others i hi'.1]
  · exact henters.surroundings.trans h.surroundings
  · obtain ⟨m', hm', honward, hidle⟩ := h.onward
    obtain ⟨m'', hm'', honward', hidle'⟩ := henters.onward m' hm' hidle
    exact ⟨m'', hm'', honward.trans honward', hidle'⟩

end Entering

/-- The entities enter one after the other; a start that raises has let some of them enter. -/
theorem wp_enterAll {w u : World} {m : Match} {l : List ℤ} (rest : List ℤ) (h : Entering w m l u)
    (hnodup : (l ++ rest).Nodup) (hout : ∀ e ∈ rest, (w.entityAt e).backup = none) :
    wp (rest.forM fun e => enterMatch env act fuel e) (fun _ u' => Entering w m (l ++ rest) u')
      (fun _ u' => ∃ l', (∀ e ∈ l', e ∈ l ++ rest) ∧ Entering w m l' u') u := by
  induction rest generalizing l u with
  | nil =>
    rw [List.append_nil]
    exact h
  | cons e rest ih =>
    have he : e ∉ l := fun hmem => (List.nodup_append.1 hnodup).2.2 e hmem e (List.mem_cons_self ..) rfl
    have hout' : (u.entityAt e).backup = none := by
      rw [h.others e he]
      exact hout e (List.mem_cons_self ..)
    have happend : l ++ [e] ++ rest = l ++ e :: rest := by simp
    obtain ⟨m', hm', -, hidle⟩ := h.onward
    show wp (enterMatch env act fuel e >>= fun _ => rest.forM fun e => enterMatch env act fuel e) _ _ u
    rw [wp_bind]
    refine wp_mono (wp_enterMatch_idle hm' hidle hout') ?_ ?_
    · intro _ v hv
      have hnext := ih (h.concat he hv) (happend ▸ hnodup) fun i hi => hout i (List.mem_cons_of_mem _ hi)
      rw [happend] at hnext
      exact hnext
    · intro _ v hv
      refine ⟨l ++ [e], fun i hi => ?_, h.concat he hv⟩
      rw [← happend]
      exact List.mem_append_left _ hi

theorem underway_beginRound (f : Func) (fuel : ℕ) : underwayTrack.Follows (beginRound env (perform env fuel) f) := by
  refine follows_get.bind fun w => (underway_of_quiet quiet_getMatch).bind fun m => ?_
  split
  · exact follows_throw .refl
  · refine Follows.ite (fun _ => follows_throw .refl) fun _ => ?_
    refine Follows.bind (follows_modify fun w => .note w _) fun _ => ?_
    exact underway_of_logic (follows_roundBegin (script_follows_true env fuel) _)

/-- **What `Match.start` does**: nothing if it refuses; otherwise some entities enter, all of them unless it raises
then, and the match goes on. -/
theorem wp_start_entering {w : World} {m : Match} (hm : w.sceneMatch = some m) (hidle : m.roundEntityid = none)
    (hnodup : m.entities.Nodup) (hout : ∀ e ∈ m.entities, (w.entityAt e).backup = none) {Q : World → Prop}
    (hrefuse : Q w) (hstart : w.Living m .allies → ∀ l u w', (∀ e ∈ l, e ∈ m.entities) →
      Entering w.begun { m with isstart := true } l u → Underway u w' → Q w') :
    wp (start env (perform env fuel) fuel) (fun _ => Q) (fun _ => Q) w := by
  have hperm := env.pairs_perm m.entities
  rw [start, wp_bind, wp_get, wp_bind, wp_getMatch]
  refine ⟨fun m' hm' => ?_, fun _ => hrefuse⟩
  obtain rfl : m = m' := Option.some.inj (hm.symm.trans hm')
  rw [wp_bind, wp_assertion]
  refine ⟨fun _ => ?_, fun _ => hrefuse⟩
  rw [wp_bind, wp_assertion]
  refine ⟨fun _ => ?_, fun _ => hrefuse⟩
  rw [wp_bind, wp_assertion]
  refine ⟨fun hsizes => ?_, fun _ => hrefuse⟩
  have hallies := World.livingEntitySize_pos.1 hsizes.1
  rw [wp_bind, wp_modifyMatch, wp_bind]
  show wp _ _ _ w.begun
  have hall : wp ((env.pairs m.entities).forM fun e => enterMatch env (perform env fuel) fuel e) _ _ w.begun :=
    wp_enterAll _ (Entering.nil (World.sceneMatch_begun hm) hidle) (hperm.nodup_iff.2 hnodup)
      fun e he => hout e (hperm.mem_iff.1 he)
  refine wp_mono hall ?_ ?_
  · intro _ u hu
    have hgo {w' : World} (hunderway : Underway u w') : Q w' :=
      hstart hallies _ u w' (fun e he => hperm.mem_iff.1 (by simpa using he)) hu hunderway
    obtain ⟨m', hm', -, -⟩ := hu.onward
    rw [wp_bind]
    refine wp_mono (wp_nextRoundEntity hm') ?_ fun _ _ h => hgo h.2.underway
    rintro _ v ⟨i, e, -, rfl⟩
    have hturn : Underway u (u.turnTo i e) := .setRound u _ _ _
    exact wp_mono (underway_beginRound _ fuel _) (fun _ _ h => hgo (hturn.trans h)) fun _ _ h => hgo (hturn.trans h)
  · rintro _ u ⟨l, hl, hu⟩
    exact hstart hallies l u u (fun e he => hperm.mem_iff.1 (by simpa using hl e he)) hu (.refl u)

end Slam.Game
