import Slam.Game.LineUp
import Slam.Game.Underway

/-!
# The end of a match

`Match.destructor` lets every entity leave the match, each with the pack that was put aside for it, and
destroys the monsters with their puppets. It returns if every entity has entered and no entity is reached
twice (`wp_dismissAll`); an entity that has not entered makes it raise, wherever it comes in the order of
`pairs` (`wp_dismissAll_of_out`).
-/

namespace Slam.Game

open Raising Track

variable {env : Env} {depth : ℕ}

/-- The pack that an entity has outside of matches: in a match it is put aside. -/
def Entity.home (x : Entity) : Pack := x.backup.getD x.pack

namespace World

/-- The pack that an entity has outside of matches. -/
def home (w : World) (e : ℤ) : Pack := (w.entityAt e).home

/-- The world with every entity out of its match. -/
def atHome (w : World) : World := { w with entityAt := fun e => { w.entityAt e with pack := w.home e, backup := none } }

theorem home_of_out {w : World} {e : ℤ} (h : (w.entityAt e).backup = none) : w.home e = w.pack e := by
  rw [home, Entity.home, h]
  rfl

theorem home_of_in {w : World} {e : ℤ} {b : Pack} (h : (w.entityAt e).backup = some b) : w.home e = b := by
  rw [home, Entity.home, h]
  rfl

theorem home_congr {w w' : World} {e : ℤ} (h : w'.entityAt e = w.entityAt e) : w'.home e = w.home e := by
  rw [home, h, home]

theorem pack_congr {w w' : World} {e : ℤ} (h : w'.entityAt e = w.entityAt e) : w'.pack e = w.pack e := by
  rw [pack, h, pack]

theorem atHome_congr {w w' : World} {e : ℤ} (h : w'.entityAt e = w.entityAt e) :
    w'.atHome.entityAt e = w.atHome.entityAt e := by
  simp only [atHome, home, h]

/-- The entity as it comes out of a match: with the pack of the copy, which takes the hit points. -/
def returned (w : World) (e : ℤ) : Entity :=
  { w.entityAt e with pack := (w.home e).receive (w.pack e), backup := none }

/-- Whom the end of a match concerns when the entity leaves it: a monster takes its puppets with it. -/
def party (w : World) (depth : ℕ) (e : ℤ) : List ℤ :=
  if (w.entityAt e).side = .allies then [e] else w.atHome.kin depth e

/-- What an entity of the other side depends on to be destroyed: it and its puppets are entities of their own, and
its puppets are in no match. -/
structure Discharged (w : World) (depth : ℕ) (e : ℤ) : Prop where
  sound : w.atHome.Sound depth e
  out : ∀ t ∈ w.atHome.kin depth e, t ≠ e → (w.entityAt t).backup = none

/-- The entity can leave its match. -/
structure Leaves (w : World) (depth : ℕ) (e : ℤ) : Prop where
  entered : ∃ b, (w.entityAt e).backup = some b ∧ b.span = .copy
  span : (w.pack e).span = .match
  own : (w.entityAt e).side ≠ .allies → w.Discharged depth e

end World

theorem World.Discharged.congr {w w' : World} {e : ℤ} (h : w.Discharged depth e) (hnext : w'.nextEntity = w.nextEntity)
    (hsame : ∀ t ∈ w.atHome.kin depth e, w'.entityAt t = w.entityAt t) :
    w'.Discharged depth e ∧ w'.atHome.kin depth e = w.atHome.kin depth e := by
  obtain ⟨hsound, hkin⟩ := @World.Sound.congr w.atHome w'.atHome _ _ h.sound (le_of_eq hnext.symm)
    (fun t ht => by rw [World.atHome_congr (hsame t ht)])
    fun t ht => by rw [World.pack_congr (World.atHome_congr (hsame t ht))]
  refine ⟨⟨hsound, fun t ht hne => ?_⟩, hkin⟩
  rw [hkin] at ht
  rw [hsame t ht]
  exact h.out t ht hne

namespace World.Leaves

variable {w w' : World} {e : ℤ}

theorem mem_party (h : w.Leaves depth e) : e ∈ w.party depth e := by
  rw [World.party]
  split_ifs with hside
  · exact List.mem_singleton_self e
  · exact (h.own hside).sound.mem_kin

/-- Nothing changes for an entity as long as those whom its leaving concerns stay. -/
theorem congr (h : w.Leaves depth e) (hnext : w'.nextEntity = w.nextEntity)
    (hsame : ∀ t ∈ w.party depth e, w'.entityAt t = w.entityAt t) :
    w'.Leaves depth e ∧ w'.party depth e = w.party depth e := by
  have hself := hsame e h.mem_party
  have hown (hside : (w.entityAt e).side ≠ .allies) :
      w'.Discharged depth e ∧ w'.atHome.kin depth e = w.atHome.kin depth e := by
    refine (h.own hside).congr hnext fun t ht => hsame t ?_
    rw [World.party, if_neg hside]
    exact ht
  refine ⟨⟨?_, ?_, ?_⟩, ?_⟩
  · rw [hself]
    exact h.entered
  · rw [World.pack_congr hself]
    exact h.span
  · rw [hself]
    exact fun hside => (hown hside).1
  · rw [World.party, World.party, hself]
    split_ifs with hside
    · rfl
    · exact (hown hside).2

end World.Leaves

/-- The entities of the list have left: those of the allies are back, and no others are concerned. -/
structure Left (depth : ℕ) (l : List ℤ) (w w' : World) : Prop where
  returned : ∀ e ∈ l, (w.entityAt e).side = .allies → w'.entityAt e = w.returned e
  others : ∀ t, t ∉ l.flatMap (w.party depth) → w'.entityAt t = w.entityAt t
  rest : { w' with entityAt := w.entityAt, sent := w.sent } = w

theorem Left.nextEntity {l : List ℤ} {w w' : World} (h : Left depth l w w') : w'.nextEntity = w.nextEntity :=
  (congrArg World.nextEntity h.rest :)

theorem Left.scene {l : List ℤ} {w w' : World} (h : Left depth l w w') : w'.scene = w.scene :=
  (congrArg World.scene h.rest :)

theorem Left.entityMaster {l : List ℤ} {w w' : World} (h : Left depth l w w') : w'.entityMaster = w.entityMaster :=
  (congrArg World.entityMaster h.rest :)

/-! ### Destroying -/

/-- A loop of destructors reaches entities of their own, one after the other. -/
theorem wp_destroyAll {n : ℕ} (ih : ∀ {t : ℤ} {u : World}, u.Sound n t → (u.kin n t).Nodup → u.entityMaster.isSome →
      wp (entityDestroy env n t) (fun _ u' => Spared (u.kin n t) u u') (fun _ _ => False) u)
    (ts : List ℤ) {u : World} (hsound : ∀ t ∈ ts, u.Sound n t) (hnodup : (ts.flatMap (u.kin n)).Nodup)
    (hmaster : u.entityMaster.isSome) :
    wp (ts.forM (entityDestroy env n)) (fun _ u' => Spared (ts.flatMap (u.kin n)) u u') (fun _ _ => False) u := by
  induction ts generalizing u with
  | nil => exact .refl _ u
  | cons t ts ihts =>
    rw [List.flatMap_cons, List.nodup_append] at hnodup
    obtain ⟨hhead, hrest, hapart⟩ := hnodup
    show wp (entityDestroy env n t >>= fun _ => ts.forM (entityDestroy env n)) _ _ u
    rw [wp_bind]
    refine wp_mono (ih (hsound t (List.mem_cons_self ..)) hhead hmaster) ?_ fun _ _ h => h
    intro _ v hspared
    -- What depends on the others is as it was.
    have hsame {s r : ℤ} (hs : s ∈ ts) (hr : r ∈ u.kin n s) : v.entityAt r = u.entityAt r :=
      hspared.entityAt r fun hmem => hapart r hmem r (List.mem_flatMap.2 ⟨s, hs, hr⟩) rfl
    have hkin {s : ℤ} (hs : s ∈ ts) : v.Sound n s ∧ v.kin n s = u.kin n s :=
      (hsound s (List.mem_cons_of_mem _ hs)).congr (le_of_eq hspared.nextEntity.symm)
        (fun r hr => by rw [hsame hs hr]) fun r hr => by rw [World.pack_congr (hsame hs hr)]
    have hall : ts.flatMap (v.kin n) = ts.flatMap (u.kin n) := List.flatMap_congr fun s hs => (hkin hs).2
    have hmaster' : v.entityMaster.isSome := by
      rw [show v.entityMaster = u.entityMaster from (congrArg World.entityMaster hspared.rest :)]
      exact hmaster
    refine wp_mono (ihts (fun s hs => (hkin hs).1) (hall ▸ hrest) hmaster') ?_ fun _ _ h => h
    intro _ v' hspared'
    rw [hall] at hspared'
    have hweak {K K' : List ℤ} {x y : World} (h : Spared K x y) (hK : ∀ r ∈ K, r ∈ K') : Spared K' x y :=
      ⟨fun r hr => h.entityAt r (mt (hK r) hr), h.rest⟩
    rw [List.flatMap_cons]
    exact (hweak hspared fun r hr => List.mem_append_left _ hr).trans
      (hweak hspared' fun r hr => List.mem_append_right _ hr)

/-- **The destructor of an entity of its own returns**, and it reaches only what depends on the entity. -/
theorem wp_entityDestroy_sound {n : ℕ} {e : ℤ} {w : World} (h : w.Sound n e) (hnodup : (w.kin n e).Nodup)
    (hmaster : w.entityMaster.isSome) :
    wp (entityDestroy env n e) (fun _ w' => Spared (w.kin n e) w w') (fun _ _ => False) w := by
  induction n generalizing e w with
  | zero => exact h.elim
  | succ n ih =>
    obtain ⟨hfreed, hlt, hdependents⟩ := h
    rw [World.kin, List.nodup_cons] at hnodup
    obtain ⟨hself, hnodup⟩ := hnodup
    -- The bag and the placeholders are the dependents.
    have hperm : (((env.pairs (w.pack e).puppets).filter fun t => t ≠ e) ++
        ((w.pack e).placeholders.map Prod.snd).filter fun t => t ≠ e).Perm ((w.pack e).dependents e) := by
      rw [Pack.dependents, List.filter_append]
      exact (List.Perm.filter _ (env.pairs_perm _)).append_right _
    have hkin := hperm.flatMap_right (w.kin n)
    rw [List.flatMap_append] at hkin
    obtain ⟨hbag, hplaces, hapart⟩ := List.nodup_append.1 (hkin.nodup_iff.2 hnodup)
    have hsound {t : ℤ} (ht : t ∈ ((env.pairs (w.pack e).puppets).filter fun t => t ≠ e) ++
        ((w.pack e).placeholders.map Prod.snd).filter fun t => t ≠ e) : w.Sound n t :=
      (hdependents t (hperm.mem_iff.1 ht)).2
    rw [entityDestroy, wp_bind, wp_get]
    dsimp only
    rw [wp_ite]
    refine ⟨fun hf => absurd hf (by rw [hfreed]; decide), fun _ => ?_⟩
    rw [wp_bind]
    refine wp_mono (wp_destroyAll ih _ (fun t ht => hsound (List.mem_append_left _ ht)) hbag hmaster) ?_ fun _ _ h => h
    intro _ u hspared
    have hsame {s r : ℤ} (hs : s ∈ ((w.pack e).placeholders.map Prod.snd).filter fun t => t ≠ e) (hr : r ∈ w.kin n s) :
        u.entityAt r = w.entityAt r :=
      hspared.entityAt r fun hmem => hapart r hmem r (List.mem_flatMap.2 ⟨s, hs, hr⟩) rfl
    have hplace {s : ℤ} (hs : s ∈ ((w.pack e).placeholders.map Prod.snd).filter fun t => t ≠ e) :
        u.Sound n s ∧ u.kin n s = w.kin n s :=
      (hsound (List.mem_append_right _ hs)).congr (le_of_eq hspared.nextEntity.symm)
        (fun r hr => by rw [hsame hs hr]) fun r hr => by rw [World.pack_congr (hsame hs hr)]
    have hall := List.flatMap_congr fun s hs => (hplace hs).2
    have hmaster' : u.entityMaster.isSome := by
      rw [show u.entityMaster = w.entityMaster from (congrArg World.entityMaster hspared.rest :)]
      exact hmaster
    rw [wp_bind]
    refine wp_mono (wp_destroyAll ih _ (fun s hs => (hplace hs).1) (hall ▸ hplaces) hmaster') ?_ fun _ _ h => h
    intro _ v hspared'
    rw [hall] at hspared'
    rw [wp_bind, wp_modifyEntity, wp_bind, wp_get, wp_ite]
    have hmaster'' : v.entityMaster.isSome := by
      rw [show v.entityMaster = u.entityMaster from (congrArg World.entityMaster hspared'.rest :)]
      exact hmaster'
    refine ⟨fun hnone => ?_, fun _ => ?_⟩
    · have hnone' : v.entityMaster.isNone = true := hnone
      rw [Option.isNone_iff_eq_none] at hnone'
      rw [hnone'] at hmaster''
      cases hmaster''
    · have hmem {r : ℤ} (hr : r ∉ w.kin (n + 1) e) : r ≠ e ∧ r ∉ ((w.pack e).dependents e).flatMap (w.kin n) :=
        ⟨fun heq => hr (heq ▸ List.mem_cons_self ..), fun hin => hr (List.mem_cons_of_mem _ hin)⟩
      have hout {r : ℤ} (hr : r ∉ ((w.pack e).dependents e).flatMap (w.kin n)) : v.entityAt r = w.entityAt r := by
        have hnot : r ∉ _ ++ _ := fun hin => hr (hkin.mem_iff.1 hin)
        rw [hspared'.entityAt r fun hin => hnot (List.mem_append_right _ hin),
          hspared.entityAt r fun hin => hnot (List.mem_append_left _ hin)]
      refine ⟨fun r hr => ?_, ?_⟩
      · rw [World.entityAt_setEntity_of_ne _ (hmem hr).1]
        exact hout (hmem hr).2
      · have hrest := congrArg (fun x : World => { x with entityAt := w.entityAt }) hspared'.rest
        exact hrest.trans hspared.rest

/-! ### Leaving -/

/-- An entity that has entered comes out with the pack that was put aside. -/
theorem wp_exitMatch_returned {w : World} {e : ℤ} {b : Pack} (hbackup : (w.entityAt e).backup = some b) (hcopy : b.span = .copy)
    (hspan : (w.pack e).span = .match) :
    wp (exitMatch env e) (fun _ w' => ∃ calls, w' = { w.setEntity e (w.returned e) with sent := calls })
      (fun _ _ => False) w := by
  rw [exitMatch, wp_bind, wp_get]
  simp only [hbackup]
  rw [wp_bind, delivery, wp_bind, wp_assertion]
  have hpack : (w.entityAt e).pack.span = .match := hspan
  refine ⟨fun _ => ?_, fun hsame => absurd ?_ hsame⟩
  · rw [wp_ite]
    refine ⟨fun hlt => ?_, fun _ => ?_⟩
    · rw [hpack, hcopy] at hlt
      exact absurd hlt (by decide)
    · rw [wp_modifyEntity, wp_bind, wp_modifyEntity]
      have hworld : (w.setEntity e { w.entityAt e with
            backup := (w.entityAt e).backup.map fun p => p.receive (w.entityAt e).pack }).setEntity e
          { (w.setEntity e { w.entityAt e with
              backup := (w.entityAt e).backup.map fun p => p.receive (w.entityAt e).pack }).entityAt e with
            pack := ((w.setEntity e { w.entityAt e with
              backup := (w.entityAt e).backup.map fun p => p.receive (w.entityAt e).pack }).entityAt e).backup.getD
                ((w.setEntity e { w.entityAt e with
              backup := (w.entityAt e).backup.map fun p => p.receive (w.entityAt e).pack }).entityAt e).pack
            backup := none } = w.setEntity e (w.returned e) := by
        simp only [World.entityAt_setEntity_self, hbackup, Option.map_some, Option.getD_some, World.returned,
          World.home_of_in hbackup, World.pack]
        simp [World.setEntity]
      rw [hworld]
      exact told_notifyClient e _
  · rw [hpack, hcopy]
    decide

/-- An entity that has not entered cannot leave. -/
theorem wp_exitMatch_of_out {w : World} {e : ℤ} (h : (w.entityAt e).backup = none) {Q : Unit → World → Prop}
    {E : Fault → World → Prop} (hE : E (.assertion .exitMatch) w) : wp (exitMatch env e) Q E w := by
  rw [exitMatch, wp_bind, wp_get]
  simp only [h]
  exact hE

theorem wp_dismiss {w : World} {e : ℤ} (h : w.Leaves depth e) (hnodup : (w.party depth e).Nodup)
    (hmaster : w.entityMaster.isSome) :
    wp (dismiss env depth e) (fun _ w' => Left depth [e] w w') (fun _ _ => False) w := by
  obtain ⟨b, hbackup, hcopy⟩ := h.entered
  rw [dismiss, wp_bind, wp_get, wp_bind]
  refine wp_mono (wp_exitMatch_returned hbackup hcopy h.span) ?_ fun _ _ h => h
  rintro _ u ⟨calls, hu⟩
  have hself : u.entityAt e = w.returned e := by
    rw [hu]
    exact World.entityAt_setEntity_self ..
  have hother {t : ℤ} (ht : t ≠ e) : u.entityAt t = w.entityAt t := by
    rw [hu]
    exact World.entityAt_setEntity_of_ne _ ht _
  have hrest : { u with entityAt := w.entityAt, sent := w.sent } = w := by rw [hu]; rfl
  rw [wp_ite]
  refine ⟨fun hside => ?_, fun hside => ?_⟩
  · -- A monster takes its puppets with it.
    have hparty : w.party depth e = w.atHome.kin depth e := if_neg hside
    obtain ⟨hsound, hout⟩ := h.own hside
    have hpack {t : ℤ} (ht : t ∈ w.atHome.kin depth e) : (u.pack t).dependents t = (w.atHome.pack t).dependents t := by
      by_cases hte : t = e
      · rw [hte, World.pack, hself]
        rfl
      · rw [World.pack_congr (hother hte)]
        exact congrArg (fun p : Pack => p.dependents t) (World.home_of_out (hout t ht hte)).symm
    have hfreed {t : ℤ} : (u.entityAt t).freed = (w.atHome.entityAt t).freed := by
      by_cases hte : t = e
      · rw [hte, hself]
        rfl
      · rw [hother hte]
        rfl
    obtain ⟨hsound', hkin⟩ := @World.Sound.congr w.atHome u _ _ hsound (le_of_eq (congrArg World.nextEntity hrest :).symm)
      (fun t _ => hfreed) fun t ht => hpack ht
    have hmaster' : u.entityMaster.isSome := by
      rw [show u.entityMaster = w.entityMaster from (congrArg World.entityMaster hrest :)]
      exact hmaster
    refine wp_mono (wp_entityDestroy_sound hsound' (by rw [hkin, ← hparty]; exact hnodup) hmaster') ?_ fun _ _ h => h
    intro _ v hspared
    refine ⟨fun t ht hallies => ?_, fun t ht => ?_, ?_⟩
    · rw [List.mem_singleton.1 ht] at hallies
      exact absurd hallies hside
    · have ht' : t ∉ w.atHome.kin depth e := by simpa [hparty] using ht
      have hne : t ≠ e := fun heq => ht' (heq ▸ hsound.mem_kin)
      rw [hspared.entityAt t (by rw [hkin]; exact ht'), hother hne]
    · have hboth := congrArg (fun x : World => { x with entityAt := w.entityAt, sent := w.sent }) hspared.rest
      exact hboth.trans hrest
  · have hside' : (w.entityAt e).side = .allies := not_not.1 hside
    refine ⟨fun t ht _ => ?_, fun t ht => ?_, hrest⟩
    · rw [List.mem_singleton.1 ht]
      exact hself
    · exact hother (by simpa [World.party, hside'] using ht)

/-- **All entities leave the match**, if each of them has entered it and no entity is concerned twice. -/
theorem wp_dismissAll (l : List ℤ) {w : World} (h : ∀ e ∈ l, w.Leaves depth e)
    (hnodup : (l.flatMap (w.party depth)).Nodup) (hmaster : w.entityMaster.isSome) :
    wp (l.forM (dismiss env depth)) (fun _ w' => Left depth l w w') (fun _ _ => False) w := by
  induction l generalizing w with
  | nil => exact ⟨fun _ he => absurd he List.not_mem_nil, fun _ _ => rfl, rfl⟩
  | cons e l ih =>
    rw [List.flatMap_cons, List.nodup_append] at hnodup
    obtain ⟨hhead, htail, hapart⟩ := hnodup
    show wp (dismiss env depth e >>= fun _ => l.forM (dismiss env depth)) _ _ w
    rw [wp_bind]
    have he := h e (List.mem_cons_self ..)
    refine wp_mono (wp_dismiss he hhead hmaster) ?_ fun _ _ h => h
    intro _ u hleft
    -- The others are as they were.
    have hsame {t : ℤ} (ht : t ∉ w.party depth e) : u.entityAt t = w.entityAt t := hleft.others t (by simpa using ht)
    have hnot {s t : ℤ} (hs : s ∈ l) (ht : t ∈ w.party depth s) : t ∉ w.party depth e := fun hmem =>
      hapart t hmem t (List.mem_flatMap.2 ⟨s, hs, ht⟩) rfl
    have hnext {s : ℤ} (hs : s ∈ l) : u.Leaves depth s ∧ u.party depth s = w.party depth s :=
      (h s (List.mem_cons_of_mem _ hs)).congr hleft.nextEntity fun t ht => hsame (hnot hs ht)
    have hall : l.flatMap (u.party depth) = l.flatMap (w.party depth) := List.flatMap_congr fun s hs => (hnext hs).2
    refine wp_mono (ih (fun s hs => (hnext hs).1) (hall ▸ htail) (hleft.entityMaster ▸ hmaster)) ?_ fun _ _ h => h
    intro _ v hleft'
    refine ⟨fun s hs hside => ?_, fun t ht => ?_, ?_⟩
    · rcases List.mem_cons.1 hs with rfl | hs
      · have hout : s ∉ l.flatMap (u.party depth) := by
          rw [hall]
          exact fun hmem => hapart s he.mem_party s hmem rfl
        rw [hleft'.others s hout, hleft.returned s (List.mem_singleton_self s) hside]
      · have hstay : u.entityAt s = w.entityAt s :=
          hsame (hnot hs (h s (List.mem_cons_of_mem _ hs)).mem_party)
        rw [hleft'.returned s hs (by rw [hstay]; exact hside), World.returned, hstay, World.home_congr hstay,
          World.pack_congr hstay, World.returned]
    · rw [List.flatMap_cons, List.mem_append, not_or] at ht
      rw [hleft'.others t (by rw [hall]; exact ht.2), hsame ht.1]
    · have hboth := congrArg (fun x : World => { x with entityAt := w.entityAt, sent := w.sent }) hleft'.rest
      exact hboth.trans hleft.rest

/-! ### Not leaving -/

/-- Nothing around the heap has changed, apart from entities that have been made, and nobody has entered a match. -/
structure StaysOut (w w' : World) : Prop where
  frame : ({ w'.frame with nextEntity := 0 } : World) = { w.frame with nextEntity := 0 }
  out : ∀ e, (w.entityAt e).backup = none → (w'.entityAt e).backup = none

theorem StaysOut.refl (w : World) : StaysOut w w := ⟨rfl, fun _ => id⟩

theorem StaysOut.trans {w w' w'' : World} (h : StaysOut w w') (h' : StaysOut w' w'') : StaysOut w w'' :=
  ⟨h'.frame.trans h.frame, fun e he => h'.out e (h.out e he)⟩

theorem StaysOut.scene {w w' : World} (h : StaysOut w w') : w'.scene = w.scene := (congrArg World.scene h.frame :)

/-- The track of the end of a match. -/
def outTrack : Track Fault World where
  ok := StaysOut
  error _ := StaysOut
  refl := .refl
  trans := .trans
  trans_error := .trans

theorem out_throw {α : Type} (f : Fault) : outTrack.Follows (throw f : Run α) := follows_throw .refl

theorem out_assertion (p : Prop) [Decidable p] (f : Func) : outTrack.Follows (assertion p f) :=
  Follows.ite (fun _ => follows_pure _) fun _ => out_throw _

theorem out_modifyEntity {e : ℤ} {f : Entity → Entity} (h : ∀ x, x.backup = none → (f x).backup = none) :
    outTrack.Follows (modifyEntity e f) := by
  refine follows_modify fun w => ⟨rfl, fun i hi => ?_⟩
  by_cases hie : i = e
  · rw [hie, World.entityAt_setEntity_self]
    exact h _ (hie ▸ hi)
  · rw [World.entityAt_setEntity_of_ne _ hie]
    exact hi

theorem out_of_quiet {α : Type} {x : Run α} (h : quietTrack.Follows x) : outTrack.Follows x := by
  have hout {w w' : World} (h : Quiet w w') : StaysOut w w' := ⟨by rw [h.frame], fun e he => (h.backup e).trans he⟩
  exact h.mono (fun _ _ => hout) fun _ _ _ hq => hout hq.1

theorem out_entityDestroy (n : ℕ) (e : ℤ) : outTrack.Follows (entityDestroy env n e) := by
  induction n generalizing e with
  | zero => exact out_throw _
  | succ n ih =>
    refine follows_get.bind fun w => Follows.ite (fun _ => out_throw _) fun _ => ?_
    refine (Follows.forM fun t _ => ih t).bind fun _ => (Follows.forM fun t _ => ih t).bind fun _ => ?_
    refine Follows.bind (out_modifyEntity (by intro x hx; exact hx)) fun _ => follows_get.bind fun u => ?_
    exact Follows.ite (fun _ => out_throw _) fun _ => follows_pure _

/-- Delivering a pack lets nobody enter if writing it does not. -/
theorem out_delivery (src : Pack) (span : Span) {write : (Pack → Pack) → Run Unit} (h : ∀ f, outTrack.Follows (write f)) :
    outTrack.Follows (delivery env src span write) := by
  have hcard (baseid : ℤ) : outTrack.Follows (cardNew env baseid) :=
    out_of_quiet fun w => wp_mono (wp_cardNew baseid w) (fun _ _ h => h.1) fun _ _ h => h
  refine (out_assertion _ _).bind fun _ => Follows.ite (fun _ => ?_) fun _ => h _
  refine (h _).bind fun _ => (Follows.forM fun c _ => ?_).bind fun _ => ?_
  · exact follows_get.bind fun _ => (hcard _).bind fun _ => h _
  refine (Follows.forM fun i _ => ?_).bind fun _ => (Follows.forM fun x _ => ?_).bind fun _ => h _
  · exact follows_get.bind fun _ => (out_of_quiet (quiet_itemNew _ _)).bind fun _ => h _
  · exact follows_get.bind fun _ => (out_of_quiet (quiet_itemNew _ _)).bind fun _ => h _

/-- Leaving lets nobody enter: a pack is only written where one has been put aside. -/
theorem out_exitMatch (e : ℤ) : outTrack.Follows (exitMatch env e) := by
  refine follows_get.bind fun w => ?_
  dsimp only
  split
  · exact out_throw _
  · refine (out_delivery _ _ fun f => out_modifyEntity fun x hx => ?_).bind fun _ => ?_
    · simp [hx]
    · exact (out_modifyEntity fun _ _ => rfl).bind fun _ => out_of_quiet (quiet_notifyClient e)

theorem wp_exitMatch_back (e : ℤ) (w : World) :
    wp (exitMatch env e) (fun _ w' => (w'.entityAt e).backup = none) (fun _ _ => True) w := by
  rw [exitMatch, wp_bind, wp_get]
  dsimp only
  split
  · trivial
  · rw [wp_bind]
    refine wp_mono (wp_top _ _) (fun _ u _ => ?_) fun _ _ _ => trivial
    rw [wp_bind, wp_modifyEntity]
    refine wp_mono (out_of_quiet (quiet_notifyClient e) _) (fun _ v hv => hv.out e ?_) fun _ _ _ => trivial
    rw [World.entityAt_setEntity_self]

theorem out_dismiss (e : ℤ) : outTrack.Follows (dismiss env depth e) := by
  refine follows_get.bind fun w => (out_exitMatch e).bind fun _ => ?_
  exact Follows.ite (fun _ => out_entityDestroy depth e) fun _ => follows_pure _

/-- Those who have left are in no match. -/
theorem wp_dismissAll_back (l : List ℤ) (w : World) : wp (l.forM (dismiss env depth))
    (fun _ w' => (∀ e ∈ l, (w'.entityAt e).backup = none) ∧ StaysOut w w') (fun _ _ => True) w := by
  induction l generalizing w with
  | nil => exact ⟨fun _ he => absurd he List.not_mem_nil, .refl w⟩
  | cons i l ih =>
    have hback : wp (dismiss env depth i) (fun _ w' => (w'.entityAt i).backup = none) (fun _ _ => True) w := by
      rw [dismiss, wp_bind, wp_get, wp_bind]
      refine wp_mono (wp_exitMatch_back i w) (fun _ u hu => ?_) fun _ _ h => h
      have hdestroy : outTrack.Follows (if (w.entityAt i).side ≠ .allies then entityDestroy env depth i else pure ()) :=
        Follows.ite (fun _ => out_entityDestroy depth i) fun _ => follows_pure _
      exact wp_mono (hdestroy u) (fun _ v hv => hv.out i hu) fun _ _ _ => trivial
    show wp (dismiss env depth i >>= fun _ => l.forM (dismiss env depth)) _ _ w
    rw [wp_bind]
    refine wp_mono (wp_and hback (out_dismiss i w)) (fun _ u hu => ?_) fun _ _ _ => trivial
    refine wp_mono (ih u) (fun _ v hv => ?_) fun _ _ _ => trivial
    refine ⟨fun e he => ?_, hu.2.trans hv.2⟩
    rcases List.mem_cons.1 he with rfl | he
    · exact hv.2.out e hu.1
    · exact hv.1 e he

/-- **If an entity is not in the match, then not all of them can leave it**: the loop raises, at this entity if not before. -/
theorem wp_dismissAll_of_out (l : List ℤ) {w : World} {e : ℤ} (he : e ∈ l) (hout : (w.entityAt e).backup = none) :
    wp (l.forM (dismiss env depth)) (fun _ _ => False) (fun _ w' => StaysOut w w') w := by
  induction l generalizing w with
  | nil => cases he
  | cons i l ih =>
    show wp (dismiss env depth i >>= fun _ => l.forM (dismiss env depth)) _ _ w
    rw [wp_bind]
    rcases List.mem_cons.1 he with rfl | he
    · rw [dismiss, wp_bind, wp_get, wp_bind]
      exact wp_exitMatch_of_out hout (.refl w)
    · refine wp_mono (out_dismiss i w) ?_ fun _ _ h => h
      intro _ u hu
      exact wp_mono (ih he (hu.out e hout)) (fun _ _ h => h) fun _ _ h => hu.trans h

/-! ### Ending a match -/

/-- The entities of a match have left it, and nobody else has entered one. -/
structure Released (depth : ℕ) (m : Match) (w w' : World) : Prop extends Left depth m.entities w w' where
  out : ∀ e, e ∈ m.entities ∨ (w.entityAt e).backup = none → (w'.entityAt e).backup = none

theorem wp_matchDestructor {w : World} {m : Match} (hm : w.sceneMatch = some m) (h : ∀ e ∈ m.entities, w.Leaves depth e)
    (hnodup : (m.entities.flatMap (w.party depth)).Nodup) (hmaster : w.entityMaster.isSome) :
    wp (matchDestructor env depth) (fun _ w' => Released depth m w w') (fun _ _ => False) w := by
  have hperm := env.pairs_perm m.entities
  rw [matchDestructor, wp_bind, wp_getMatch]
  refine ⟨fun m' hm' => ?_, fun hnone => by rw [hm] at hnone; cases hnone⟩
  obtain rfl : m = m' := Option.some.inj (hm.symm.trans hm')
  rw [wp_bind]
  refine wp_mono (wp_and (wp_dismissAll _ (fun e he => h e (hperm.mem_iff.1 he))
    ((hperm.flatMap_right _).nodup_iff.2 hnodup) hmaster) (wp_dismissAll_back _ w)) ?_ fun _ _ h => h.1
  rintro _ u ⟨hleft, hback, hout⟩
  rw [wp_bind, wp_get, wp_ite]
  refine ⟨fun hnone => ?_, fun _ => ?_⟩
  · have hnone' : u.entityMaster.isNone = true := hnone
    rw [hleft.entityMaster, Option.isNone_iff_eq_none] at hnone'
    rw [hnone'] at hmaster
    cases hmaster
  · refine ⟨⟨fun e he => hleft.returned e (hperm.mem_iff.2 he),
      fun t ht => hleft.others t fun hmem => ht ((hperm.flatMap_right _).mem_iff.1 hmem), hleft.rest⟩, fun e he => ?_⟩
    rcases he with he | he
    · exact hback e (hperm.mem_iff.2 he)
    · exact hout.out e he

theorem wp_matchDestructor_of_out {w : World} {m : Match} (hm : w.sceneMatch = some m) {e : ℤ} (he : e ∈ m.entities)
    (hout : (w.entityAt e).backup = none) :
    wp (matchDestructor env depth) (fun _ _ => False) (fun _ w' => StaysOut w w') w := by
  rw [matchDestructor, wp_bind, wp_getMatch]
  refine ⟨fun m' hm' => ?_, fun hnone => by rw [hm] at hnone; cases hnone⟩
  obtain rfl : m = m' := Option.some.inj (hm.symm.trans hm')
  rw [wp_bind]
  exact wp_mono (wp_dismissAll_of_out _ (env.mem_pairs.2 he) hout) (fun _ _ h => h.elim) fun _ _ h => h

/-- The scene `s` has no match any more and has at most lost members. -/
structure Cleared (s : Scene) (w w' : World) : Prop where
  rest : w' = { w with scene := w'.scene }
  scene : ∃ s', w'.scene = some s' ∧ s'.sceneMatch = none ∧ ∀ e ∈ s'.members, e ∈ s.members

theorem wp_sceneRemoveMember {s : Scene} {w w' : World} (h : Cleared s w w') (e : ℤ) :
    wp (sceneRemoveMember e) (fun _ v => Cleared s w v) (fun _ _ => False) w' := by
  obtain ⟨hrest, s', hs', hnone, hmembers⟩ := h
  rw [sceneRemoveMember, wp_bind, wp_get]
  simp only [hs']
  rw [wp_ite]
  refine ⟨fun _ => ⟨hrest, s', hs', hnone, hmembers⟩, fun _ => ?_⟩
  rw [wp_bind, wp_modify, wp_ite]
  refine ⟨fun hsome => ?_, fun _ => ?_⟩
  · rw [hnone] at hsome
    cases hsome
  · refine ⟨?_, { s' with members := s'.members.erase e }, ?_, hnone, fun i hi => hmembers i (List.mem_of_mem_erase hi)⟩
    · rw [hrest]
    · rw [hs']
      rfl

/-- **A match that all entities have entered is ended**: they are back, and the scene has no match any more. -/
theorem wp_endMatch {w : World} {s : Scene} {m : Match} (hs : w.scene = some s) (hm : s.sceneMatch = some m)
    (hevent : w.monsterEvent.isSome) (hdone : m.isdone = true) (hvictory : m.sideVictory ≠ none)
    (h : ∀ e ∈ m.entities, w.Leaves depth e) (hnodup : (m.entities.flatMap (w.party depth)).Nodup)
    (hmaster : w.entityMaster.isSome) :
    wp (endMatch env depth) (fun _ w' => ∃ u, Released depth m w u ∧ Cleared s u w') (fun _ _ => False) w := by
  have hmatch : w.sceneMatch = some m := by rw [World.sceneMatch, hs]; exact hm
  rw [endMatch, wp_bind, wp_get, wp_bind, wp_assertion]
  refine ⟨fun _ => ?_, fun hno => absurd (by rw [hmatch]; rfl) hno⟩
  rw [wp_ite]
  refine ⟨fun hnone => ?_, fun _ => ?_⟩
  · rw [Option.isNone_iff_eq_none] at hnone
    rw [hnone] at hevent
    cases hevent
  rw [wp_bind, wp_getMatch]
  refine ⟨fun m' hm' => ?_, fun hnone => by rw [hmatch] at hnone; cases hnone⟩
  obtain rfl : m = m' := Option.some.inj (hmatch.symm.trans hm')
  rw [wp_bind, wp_assertion]
  refine ⟨fun _ => ?_, fun hno => absurd hdone hno⟩
  rw [wp_bind, wp_assertion]
  refine ⟨fun _ => ?_, fun hno => absurd (Option.isSome_iff_ne_none.2 hvictory) hno⟩
  rw [wp_bind]
  refine wp_mono (wp_matchDestructor hmatch h hnodup hmaster) ?_ fun _ _ h => h
  intro _ u hleft
  rw [wp_bind, wp_modify, wp_bind, modifyEvent, wp_modify]
  have hscene : u.scene = some s := hleft.scene.trans hs
  have hcleared : Cleared s u ((u.withMatch none).mapEvent fun event => { event with touch := true }) := by
    refine ⟨rfl, { s with sceneMatch := none, triggerEvent := s.triggerEvent.map fun event => { event with touch := true } },
      ?_, rfl, fun _ => id⟩
    simp [World.withMatch, World.mapEvent, hscene]
  rw [wp_ite]
  refine ⟨fun _ => ?_, fun _ => ⟨u, hleft, hcleared⟩⟩
  rw [wp_bind, wp_get]
  exact wp_mono (wp_forM (fun e _ v hv => wp_sceneRemoveMember hv e) hcleared) (fun _ v hv => ⟨u, hleft, hv⟩) fun _ _ h => h

/-- **A match that an entity has not entered is not ended.** -/
theorem wp_endMatch_of_out {w : World} {m : Match} (hm : w.sceneMatch = some m) (hevent : w.monsterEvent.isSome) {e : ℤ}
    (he : e ∈ m.entities) (hout : (w.entityAt e).backup = none) :
    wp (endMatch env depth) (fun _ _ => False) (fun _ w' => StaysOut w w') w := by
  rw [endMatch, wp_bind, wp_get, wp_bind, wp_assertion]
  refine ⟨fun _ => ?_, fun _ => .refl w⟩
  rw [wp_ite]
  refine ⟨fun hnone => ?_, fun _ => ?_⟩
  · rw [Option.isNone_iff_eq_none] at hnone
    rw [hnone] at hevent
    cases hevent
  rw [wp_bind, wp_getMatch]
  refine ⟨fun m' hm' => ?_, fun _ => .refl w⟩
  rw [wp_bind, wp_assertion]
  refine ⟨fun _ => ?_, fun _ => .refl w⟩
  rw [wp_bind, wp_assertion]
  refine ⟨fun _ => ?_, fun _ => .refl w⟩
  rw [wp_bind]
  exact wp_mono (wp_matchDestructor_of_out hm he hout) (fun _ _ h => h.elim) fun _ _ h => h

end Slam.Game
