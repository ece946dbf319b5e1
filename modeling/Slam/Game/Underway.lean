import Slam.Game.Liveness
import Slam.Game.SceneMatch

/-!
# What stays while a match goes on

The requests of a match change packs, turns and deaths, but they leave alone who the entities are, the packs
that have been put aside, who is in the line-up of a pack, and the copy and the scene around the match; and a
match that is done has a winner. `Underway` says so of every step and of every error of the logic, so that it
holds of all requests, whether they return or raise.

Before a match is started nobody has a turn, and then the requests do nothing at all.
-/

namespace Slam.Game

open Raising Track

variable {env : Env}

/-- An entity without its pack, its random numbers and whether it is dead. -/
def Entity.standing (x : Entity) : Entity := { x with seed := 0, death := false, pack := {} }

/-- The span and the line-up of a pack. -/
def Pack.fixed (p : Pack) : Pack := { span := p.span, puppets := p.puppets, placeholders := p.placeholders }

/-- What surrounds a match: the copy, and the scene without its match. -/
def World.surroundings (w : World) : World :=
  { w.frame with
    scene := w.scene.map fun s => { s with sceneMatch := none }
    trace := [], locked := [], early := false }

theorem World.surroundings_eq_frame (w : World) : w.surroundings =
    { w.frame with
      scene := w.frame.scene.map fun s => { s with sceneMatch := none }
      trace := [], locked := [], early := false } := rfl

/-- What surrounds a match tells the scene apart from the match. -/
theorem World.scene_of_surroundings {w w' : World} (h : w'.surroundings = w.surroundings) {s' : Scene}
    (hs' : w'.scene = some s') :
    ∃ s, w.scene = some s ∧ s'.members = s.members ∧ s'.triggerEvent = s.triggerEvent := by
  have hscene : (w'.scene.map fun s : Scene => { s with sceneMatch := none }) =
      w.scene.map fun s : Scene => { s with sceneMatch := none } := (congrArg World.scene h :)
  rw [hs', Option.map_some] at hscene
  obtain ⟨s, hs, heq⟩ := Option.map_eq_some_iff.1 hscene.symm
  exact ⟨s, hs, (congrArg Scene.members heq :).symm, (congrArg Scene.triggerEvent heq :).symm⟩

theorem World.surroundings_mapMatch (w : World) (f : Match → Match) : (w.mapMatch f).surroundings = w.surroundings := by
  cases hs : w.scene with
  | none => simp [World.surroundings, World.frame, World.mapMatch, hs]
  | some s => simp [World.surroundings, World.frame, World.mapMatch, hs]

/-- The same match, later, with a winner if it is done. -/
structure Match.Onward (m m' : Match) : Prop extends m.Later m' where
  told : (m.isdone = true → m.sideVictory ≠ none) → m'.isdone = true → m'.sideVictory ≠ none

theorem Match.Onward.refl (m : Match) : m.Onward m := ⟨.refl m, id⟩

theorem Match.Onward.trans {m m' m'' : Match} (h : m.Onward m') (h' : m'.Onward m'') : m.Onward m'' :=
  ⟨h.toLater.trans h'.toLater, fun htold => h'.told (h.told htold)⟩

/-- What the requests of a match leave as it is. -/
structure Underway (w w' : World) : Prop where
  standing : ∀ e, (w'.entityAt e).standing = (w.entityAt e).standing
  fixed : ∀ e, (w'.pack e).fixed = (w.pack e).fixed
  maxhp : ∀ e, 0 ≤ (w.pack e).maxhp → 0 ≤ (w'.pack e).maxhp
  surroundings : w'.surroundings = w.surroundings
  onward : ∀ m, w.sceneMatch = some m → ∃ m', w'.sceneMatch = some m' ∧ m.Onward m'
  idle : w.sceneMatch = none → w'.sceneMatch = none

namespace Underway

variable {w w' w'' : World}

theorem refl (w : World) : Underway w w where
  standing _ := rfl
  fixed _ := rfl
  maxhp _ := id
  surroundings := rfl
  onward m hm := ⟨m, hm, .refl m⟩
  idle := id

theorem trans (h : Underway w w') (h' : Underway w' w'') : Underway w w'' where
  standing e := (h'.standing e).trans (h.standing e)
  fixed e := (h'.fixed e).trans (h.fixed e)
  maxhp e hm := h'.maxhp e (h.maxhp e hm)
  surroundings := h'.surroundings.trans h.surroundings
  onward m hm := by
    obtain ⟨m', hm', honward⟩ := h.onward m hm
    obtain ⟨m'', hm'', honward'⟩ := h'.onward m' hm'
    exact ⟨m'', hm'', honward.trans honward'⟩
  idle hnone := h'.idle (h.idle hnone)

theorem side (h : Underway w w') (e : ℤ) : (w'.entityAt e).side = (w.entityAt e).side :=
  (congrArg Entity.side (h.standing e) :)

theorem freed (h : Underway w w') (e : ℤ) : (w'.entityAt e).freed = (w.entityAt e).freed :=
  (congrArg Entity.freed (h.standing e) :)

theorem backup (h : Underway w w') (e : ℤ) : (w'.entityAt e).backup = (w.entityAt e).backup :=
  (congrArg Entity.backup (h.standing e) :)

theorem span (h : Underway w w') (e : ℤ) : (w'.pack e).span = (w.pack e).span := (congrArg Pack.span (h.fixed e) :)

theorem puppets (h : Underway w w') (e : ℤ) : (w'.pack e).puppets = (w.pack e).puppets :=
  (congrArg Pack.puppets (h.fixed e) :)

theorem placeholders (h : Underway w w') (e : ℤ) : (w'.pack e).placeholders = (w.pack e).placeholders :=
  (congrArg Pack.placeholders (h.fixed e) :)

theorem nextEntity (h : Underway w w') : w'.nextEntity = w.nextEntity :=
  (congrArg World.nextEntity h.surroundings :)

theorem copySet (h : Underway w w') : w'.copySet = w.copySet := (congrArg World.copySet h.surroundings :)

theorem copyMembers (h : Underway w w') : w'.copyMembers = w.copyMembers :=
  (congrArg World.copyMembers h.surroundings :)

theorem entityMaster (h : Underway w w') : w'.entityMaster = w.entityMaster :=
  (congrArg World.entityMaster h.surroundings :)

/-- The scene stays apart from its match. -/
theorem scene (h : Underway w w') {s' : Scene} (hs' : w'.scene = some s') :
    ∃ s, w.scene = some s ∧ s'.members = s.members ∧ s'.triggerEvent = s.triggerEvent :=
  World.scene_of_surroundings h.surroundings hs'

theorem scene_eq_none (h : Underway w w') (hs : w.scene = none) : w'.scene = none := by
  cases hs' : w'.scene with
  | none => rfl
  | some s' =>
    obtain ⟨s, hsome, -⟩ := h.scene hs'
    rw [hs] at hsome
    cases hsome

/-- Changes of packs and of what is recorded, with the scene as it is. -/
theorem of_scene (hstanding : ∀ e, (w'.entityAt e).standing = (w.entityAt e).standing)
    (hfixed : ∀ e, (w'.pack e).fixed = (w.pack e).fixed)
    (hmaxhp : ∀ e, 0 ≤ (w.pack e).maxhp → 0 ≤ (w'.pack e).maxhp) (hsurroundings : w'.surroundings = w.surroundings)
    (hscene : w'.scene = w.scene) : Underway w w' := by
  have hmatch : w'.sceneMatch = w.sceneMatch := by rw [World.sceneMatch, World.sceneMatch, hscene]
  exact ⟨hstanding, hfixed, hmaxhp, hsurroundings, fun m hm => ⟨m, hmatch.trans hm, .refl m⟩, hmatch.trans⟩

theorem of_quiet (h : Quiet w w') : Underway w w' := by
  refine of_scene (fun e => (congrArg Entity.standing (h.core e) :)) (fun e => (congrArg Pack.fixed (h.packCore e) :))
    h.maxhp ?_ h.scene
  rw [World.surroundings_eq_frame, World.surroundings_eq_frame, h.frame]

theorem setPack {e : ℤ} {p : Pack} (hfixed : p.fixed = (w.pack e).fixed) (hmaxhp : p.maxhp = (w.pack e).maxhp) :
    Underway w (w.setPack e p) := by
  refine of_scene (fun i => ?_) (fun i => ?_) (fun i => ?_) rfl rfl
  · rw [World.entityAt_setPack]
    rfl
  · by_cases hi : i = e
    · rw [hi, World.pack_setPack_self, hfixed]
    · rw [World.pack_setPack_of_ne _ hi]
  · by_cases hi : i = e
    · rw [hi, World.pack_setPack_self, hmaxhp]
      exact id
    · rw [World.pack_setPack_of_ne _ hi]
      exact id

theorem touch (w : World) (e : ℤ) : Underway w (w.touch e) :=
  of_scene (fun _ => rfl) (fun _ => rfl) (fun _ => id) rfl rfl

theorem note (w : World) (records : List Record) : Underway w (w.note records) :=
  of_scene (fun _ => rfl) (fun _ => rfl) (fun _ => id) rfl rfl

theorem markDead (w : World) (e : ℤ) : Underway w (w.markDead e) := by
  refine of_scene (fun i => ?_) (fun i => ?_) (fun i => ?_) rfl rfl
  · rw [World.entityAt_markDead]
    rfl
  · rw [World.pack_markDead]
  · rw [World.pack_markDead]
    exact id

/-- A change of the match. -/
theorem mapMatch {f : Match → Match} (h : ∀ m, w.sceneMatch = some m → m.Onward (f m)) : Underway w (w.mapMatch f) where
  standing _ := rfl
  fixed _ := rfl
  maxhp _ := id
  surroundings := w.surroundings_mapMatch f
  onward m hm := ⟨f m, by rw [World.sceneMatch_mapMatch, hm]; rfl, h m hm⟩
  idle hnone := by rw [World.sceneMatch_mapMatch, hnone]; rfl

theorem decided {m : Match} (hm : w.sceneMatch = some m) (hdone : m.isdone = false) (side : Side) :
    Underway w (w.decided side) := by
  refine mapMatch fun m' hm' => ?_
  obtain rfl : m = m' := Option.some.inj (hm.symm.trans hm')
  exact ⟨⟨rfl, rfl, rfl, fun hd => by rw [hdone] at hd; cases hd⟩, fun _ _ => Option.some_ne_none side⟩

/-- Moving the turn. -/
theorem setRound (w : World) (f : Match → ℤ) (g : Match → Option ℕ) (h : Match → Option ℤ) :
    Underway w (w.mapMatch fun m => { m with roundTotal := f m, roundIterator := g m, roundEntityid := h m }) :=
  mapMatch fun _ _ => ⟨⟨rfl, rfl, rfl, fun hd => ⟨hd, rfl⟩⟩, id⟩

end Underway

/-! ### Steps and errors -/

theorem Stack.fixed_set (s : Stack) (p : Pack) (cards : List ℤ) : (s.set p cards).fixed = p.fixed := by
  cases s <;> rfl

theorem World.underway_die {w : World} {e : ℤ} (hlate : w.late e = false) : Underway w (w.die e) := by
  cases hm : w.sceneMatch with
  | none =>
    have hdie : w.die e = w.markDead e := by
      simp only [World.die, show (w.markDead e).sceneMatch = none from hm]
    rw [hdie]
    exact .markDead w e
  | some m =>
    rw [World.late, hm] at hlate
    obtain ⟨-, hdie⟩ | ⟨side, -, hdie⟩ := World.die_cases hm e
    · rw [hdie]
      exact .markDead w e
    · rw [hdie]
      exact (Underway.markDead w e).trans (Underway.decided (w := w.markDead e) hm (Bool.or_eq_false_iff.1 hlate).1 side)

theorem Step.underway {adding : Bool} {w w' : World} (h : Step adding w w') : Underway w w' := by
  cases h with
  | quiet h => exact .of_quiet h
  | shift =>
    refine (Underway.touch w _).trans (.setPack ?_ ?_)
    · simp only [Pack.shift, Stack.fixed_set]
      rfl
    · simp only [Pack.shift, Stack.maxhp_set]
      rfl
  | newone h => exact ((Underway.of_quiet h).trans (.touch _ _)).trans (.setPack rfl rfl)
  | addCard _ h => exact (Underway.of_quiet h).trans (.setPack rfl rfl)
  | leave => exact (Underway.touch w _).trans (.setPack rfl rfl)
  | @file _ _ s =>
    refine (Underway.touch w _).trans (.setPack ?_ ?_)
    · exact Stack.fixed_set s _ _
    · exact Stack.maxhp_set s _ _
  | destroy => exact .setPack rfl rfl
  | lock => exact .of_scene (fun _ => rfl) (fun _ => rfl) (fun _ => id) rfl rfl
  | unlock => exact .of_scene (fun _ => rfl) (fun _ => rfl) (fun _ => id) rfl rfl
  | die _ hlate => exact World.underway_die hlate
  | @pass _ i _ e' =>
    exact (Underway.setRound _ (fun m => m.roundTotal + 1) (fun _ => some i) fun _ => some e').trans (.note _ _)

theorem Moves.underway {adding : Bool} {w w' : World} (h : Moves adding w w') : Underway w w' := by
  induction h with
  | refl => exact .refl w
  | tail _ hstep ih => exact ih.trans hstep.underway

theorem Fail.underway {f : Fault} {w w' : World} (h : Fail f w w') : Underway w w' := by
  cases h with
  | plain => exact .refl w
  | stack _ _ h => exact .of_quiet h
  | late => exact .markDead w _
  | undone => exact .markDead w _
  | noScene => exact .markDead w _
  | noTurn _ _ _ hw =>
    obtain ⟨total, i, e, rfl⟩ := hw
    exact .setRound w (fun _ => total) (fun _ => i) fun _ => e

/-- The track of the requests of a match. -/
def underwayTrack : Track Fault World where
  ok := Underway
  error _ := Underway
  refl := .refl
  trans := .trans
  trans_error := .trans

/-- **What a program of the logic does goes on in this way**, whether it returns or raises. -/
theorem wp_underway {adding : Bool} {α : Type} {x : Run α} {w : World} (h : wp x
      (fun _ w' => (logicTrack adding).ok w w') (fun f w' => (logicTrack adding).error f w w') w) :
    wp x (fun _ w' => Underway w w') (fun _ w' => Underway w w') w := by
  refine wp_mono h (fun _ w' hok => hok.1.underway) ?_
  rintro f w' ⟨u, hmoves, -, hfail⟩
  exact hmoves.underway.trans hfail.underway

theorem underway_of_logic {adding : Bool} {α : Type} {x : Run α} (h : (logicTrack adding).Follows x) :
    underwayTrack.Follows x := fun w => wp_underway (h w)

theorem underway_of_quiet {α : Type} {x : Run α} (h : quietTrack.Follows x) : underwayTrack.Follows x :=
  h.mono (fun _ _ => .of_quiet) fun _ _ _ hq => .of_quiet hq.1

/-! ### The entries of a match -/

theorem quiet_matchJudge (f : Func) (hf : f.tracked = false) (e : ℤ) {judge : Run Bool} (h : quietTrack.Follows judge) :
    quietTrack.Follows (matchJudge f e judge) := by
  refine quiet_getMatch.bind fun m => (quiet_assertion _ hf).bind fun _ => (quiet_assertion _ hf).bind fun _ => ?_
  exact Follows.ite (fun _ => quiet_throw trivial) fun _ => h

theorem quiet_cardPlayJudge (e c : ℤ) (pick : Option ℤ) : quietTrack.Follows (cardPlayJudge env e c pick) := by
  refine follows_get.bind fun w => Follows.ite (fun _ => follows_pure _) fun _ => ?_
  refine (quiet_assertion _ rfl).bind fun _ => Follows.ite (fun _ => follows_pure _) fun _ => ?_
  refine Follows.ite (fun _ => follows_pure _) fun _ => Follows.ite (fun _ => follows_pure _) fun _ => ?_
  cases pick with
  | none => exact follows_pure _
  | some p => exact (quiet_cardGetTargets _ _ _).bind fun _ => follows_pure _

theorem quiet_cardDiscardJudge (e c : ℤ) : quietTrack.Follows (cardDiscardJudge e c) :=
  follows_get.bind fun _ => Follows.ite (fun _ => follows_pure _) fun _ =>
    (quiet_assertion _ rfl).bind fun _ => follows_pure _

end Slam.Game
