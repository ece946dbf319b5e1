import Slam.Game.Settle

/-!
# What the logic does to the world, step by step

The functions of a match call each other and the scripts in many ways, but each of them changes the
world in one of a few steps: numbers and buffs change, a card moves from one stack to another, an
entity dies, a turn is handed over. `Step` lists these steps, and `Fail` the ways in which a call
may end in an error.

A card that has left the hand is filed at the end of the same call, and the stacks of an entity whose
card is about to leave the hand are not to be used: `Bracket` says that a call that returns leaves
these matters as it found them. `Slam.Game.Follow` proves that all functions follow `logicTrack`;
what holds in a match is then proved step by step.
-/

namespace Slam.Game

open Raising

/-! ### Quiet changes -/

/-- The part of a pack that only steps of their own change. -/
def Pack.core (p : Pack) : Pack :=
  { p with hp := 0, mp := 0, maxhp := 0, strength := 0, armor := 0, shield := 0, gold := 0
           items := [], buffs := [] }

/-- The part of an entity that only steps of their own change. -/
def Entity.core (x : Entity) : Entity := { x with seed := 0, pack := x.pack.core }

/-- The part of the world outside its heap. -/
def World.frame (w : World) : World :=
  { w with entityAt := fun _ => {}, cardAt := fun _ => default, itemAt := fun _ => default
           buffAt := fun _ => default, nextCard := 0, nextItem := 0, nextBuff := 0, sent := [] }

/-- No entity has the item in its pack. -/
def World.Unowned (w : World) (i : ℤ) : Prop := ∀ e, i ∉ (w.pack e).items

theorem World.items_setEntity (w : World) {e : ℤ} {x : Entity} (h : x.pack.items = (w.pack e).items) (i : ℤ) :
    ((w.setEntity e x).pack i).items = (w.pack i).items := by
  by_cases hi : i = e
  · subst hi
    rw [World.pack, World.entityAt_setEntity_self, h]
  · rw [World.pack, World.entityAt_setEntity_of_ne w hi, World.pack]

/-- A list of identifiers grew by some that were given out in between. -/
def Appended (old next : ℤ) (l l' : List ℤ) : Prop := ∃ more, l' = l ++ more ∧ more.Nodup ∧ ∀ i ∈ more, old ≤ i ∧ i < next

theorem Appended.refl (old next : ℤ) (l : List ℤ) : Appended old next l l := ⟨[], by simp, by simp, by simp⟩

theorem Appended.trans {n n' n'' : ℤ} {l l' l'' : List ℤ} (h : Appended n n' l l') (h' : Appended n' n'' l' l'')
    (hle : n ≤ n') (hle' : n' ≤ n'') : Appended n n'' l l'' := by
  obtain ⟨more, rfl, hnodup, hmore⟩ := h
  obtain ⟨more', rfl, hnodup', hmore'⟩ := h'
  refine ⟨more ++ more', List.append_assoc .., List.nodup_append.2 ⟨hnodup, hnodup', ?_⟩, ?_⟩
  · -- Those that came first are smaller.
    intro i hi j hj hij
    have hlt := (hmore i hi).2
    have hge := (hmore' j hj).1
    omega
  · intro i hi
    rcases List.mem_append.1 hi with hi | hi
    · have := hmore i hi
      omega
    · have := hmore' i hi
      omega

/-- A change of numbers, buffs and items, of the rows of cards, and of what the client is told. New items
come as long as there are slots for them, and an item that is in no pack stays as it is. -/
structure Quiet (w w' : World) : Prop where
  core : ∀ e, (w'.entityAt e).core = (w.entityAt e).core
  maxhp : ∀ e, 0 ≤ (w.pack e).maxhp → 0 ≤ (w'.pack e).maxhp
  frame : w'.frame = w.frame
  nextCard : w.nextCard ≤ w'.nextCard
  nextItem : w.nextItem ≤ w'.nextItem
  cardBaseid : ∀ c < w.nextCard, (w'.cardAt c).baseid = (w.cardAt c).baseid
  itemBaseid : ∀ i < w.nextItem, (w'.itemAt i).baseid = (w.itemAt i).baseid
  slots : ∀ e, ((w'.pack e).items.length : ℤ) ≤ max ((w.pack e).items.length : ℤ) (w.entityAt e).base.maxPackSlots
  unowned : ∀ i < w.nextItem, w.Unowned i → w'.Unowned i ∧ w'.itemAt i = w.itemAt i
  items : ∀ e, Appended w.nextItem w'.nextItem (w.pack e).items (w'.pack e).items

namespace Quiet

variable {w w' w'' : World}

theorem refl (w : World) : Quiet w w where
  core _ := rfl
  maxhp _ h := h
  frame := rfl
  nextCard := le_refl _
  nextItem := le_refl _
  cardBaseid _ _ := rfl
  itemBaseid _ _ := rfl
  slots _ := le_max_left ..
  unowned _ _ h := ⟨h, rfl⟩
  items _ := .refl ..

theorem base (h : Quiet w w') (e : ℤ) : (w'.entityAt e).base = (w.entityAt e).base :=
  (congrArg Entity.base (h.core e) :)

theorem trans (h : Quiet w w') (h' : Quiet w' w'') : Quiet w w'' where
  core e := (h'.core e).trans (h.core e)
  maxhp e hm := h'.maxhp e (h.maxhp e hm)
  frame := h'.frame.trans h.frame
  nextCard := h.nextCard.trans h'.nextCard
  nextItem := h.nextItem.trans h'.nextItem
  cardBaseid c hc := (h'.cardBaseid c (hc.trans_le h.nextCard)).trans (h.cardBaseid c hc)
  itemBaseid i hi := (h'.itemBaseid i (hi.trans_le h.nextItem)).trans (h.itemBaseid i hi)
  slots e := by
    have hslots := h.slots e
    have hslots' := h'.slots e
    rw [h.base e] at hslots'
    omega
  unowned i hi hw := by
    obtain ⟨hw', hsame⟩ := h.unowned i hi hw
    obtain ⟨hw'', hsame'⟩ := h'.unowned i (hi.trans_le h.nextItem) hw'
    exact ⟨hw'', hsame'.trans hsame⟩
  items e := (h.items e).trans (h'.items e) h.nextItem h'.nextItem

/-- Writing an entity is quiet if the core of the entity and its items stay. -/
theorem setEntity {e : ℤ} {x : Entity} (hcore : x.core = (w.entityAt e).core)
    (hmaxhp : 0 ≤ (w.pack e).maxhp → 0 ≤ x.pack.maxhp) (hitems : x.pack.items = (w.pack e).items) :
    Quiet w (w.setEntity e x) where
  core i := by
    by_cases h : i = e
    · subst h
      simpa using hcore
    · rw [w.entityAt_setEntity_of_ne h]
  maxhp i := by
    by_cases h : i = e
    · subst h
      simpa [World.pack] using hmaxhp
    · rw [World.pack, World.pack, w.entityAt_setEntity_of_ne h]
      exact id
  frame := rfl
  nextCard := le_refl _
  nextItem := le_refl _
  cardBaseid _ _ := rfl
  itemBaseid _ _ := rfl
  slots i := by
    rw [w.items_setEntity hitems]
    exact le_max_left ..
  unowned i _ hi := by
    refine ⟨fun j => ?_, rfl⟩
    rw [w.items_setEntity hitems]
    exact hi j
  items i := by
    rw [w.items_setEntity hitems]
    exact .refl ..

/-- Writing a pack is quiet if the core of the pack and its items stay. -/
theorem setPack {e : ℤ} {p : Pack} (hcore : p.core = (w.pack e).core)
    (hmaxhp : 0 ≤ (w.pack e).maxhp → 0 ≤ p.maxhp) (hitems : p.items = (w.pack e).items) : Quiet w (w.setPack e p) :=
  setEntity (by simp only [Entity.core, hcore, World.pack]) hmaxhp hitems

/-- What is not in the heap is as it was. -/
theorem scene (h : Quiet w w') : w'.scene = w.scene := (congrArg World.scene h.frame :)

theorem sceneMatch (h : Quiet w w') : w'.sceneMatch = w.sceneMatch := by
  rw [World.sceneMatch, World.sceneMatch, h.scene]

theorem trace (h : Quiet w w') : w'.trace = w.trace := (congrArg World.trace h.frame :)

theorem locked (h : Quiet w w') : w'.locked = w.locked := (congrArg World.locked h.frame :)

theorem early (h : Quiet w w') : w'.early = w.early := (congrArg World.early h.frame :)

theorem death (h : Quiet w w') (e : ℤ) : (w'.entityAt e).death = (w.entityAt e).death :=
  (congrArg Entity.death (h.core e) :)

theorem side (h : Quiet w w') (e : ℤ) : (w'.entityAt e).side = (w.entityAt e).side :=
  (congrArg Entity.side (h.core e) :)

theorem backup (h : Quiet w w') (e : ℤ) : (w'.entityAt e).backup = (w.entityAt e).backup :=
  (congrArg Entity.backup (h.core e) :)

theorem packCore (h : Quiet w w') (e : ℤ) : (w'.pack e).core = (w.pack e).core :=
  (congrArg Entity.pack (h.core e) :)

theorem stack (h : Quiet w w') (e : ℤ) (s : Stack) : s.get (w'.pack e) = s.get (w.pack e) := by
  have hcore := h.packCore e
  cases s
  · exact (congrArg Pack.stackDeal hcore :)
  · exact (congrArg Pack.stackDiscard hcore :)
  · exact (congrArg Pack.stackExhaust hcore :)
  · exact (congrArg Pack.stackHold hcore :)

theorem settling (h : Quiet w w') (e : ℤ) : (w'.pack e).settling = (w.pack e).settling :=
  (congrArg Pack.settling (h.packCore e) :)

theorem suffix (h : Quiet w w') (e : ℤ) : (w.pack e).settling <:+ (w'.pack e).settling := by
  rw [h.settling e]

end Quiet

/-! ### Steps -/

/-- All cards of a pack that are in a stack or have left the hand and are not filed yet. -/
def Pack.inPlay (p : Pack) : List ℤ :=
  p.stackDeal ++ p.stackHold ++ p.stackDiscard ++ p.stackExhaust ++ p.settling

/-- A card goes from one stack to another. -/
def Pack.shift (p : Pack) (s t : Stack) (c : ℤ) : Pack :=
  let p := t.set p (t.get p ++ [c])
  s.set p ((s.get p).erase c)

/-- A new card comes to the hand. -/
def Pack.receiveNewone (p : Pack) (c : ℤ) : Pack :=
  { p with stackHold := p.stackHold ++ [c], newones := p.newones ++ [c] }

/-- A card leaves the hand. -/
def Pack.leave (p : Pack) (c : ℤ) : Pack :=
  { p with stackHold := p.stackHold.erase c, settling := c :: p.settling }

/-- A card that has left the hand is put on a stack. -/
def Pack.file (p : Pack) (s : Stack) (c : ℤ) : Pack :=
  { s.set p (s.get p ++ [c]) with settling := p.settling.erase c }

/-- A card that has left the hand is destroyed. -/
def Pack.destroy (p : Pack) (c : ℤ) : Pack :=
  { p with settling := p.settling.erase c, destroyed := p.destroyed ++ [c] }

namespace World

/-- The entity is dead, and this has been recorded. -/
def markDead (w : World) (e : ℤ) : World :=
  (w.setEntity e { w.entityAt e with death := true }).note [.died e (w.late e)]

/-- The match is decided for a side. -/
def decided (w : World) (side : Side) : World :=
  w.mapMatch fun m => { m with isdone := true, sideVictory := some side }

/-- The side that has won when no entity of the other one is living. -/
def winner (w : World) (m : Match) : Option Side :=
  if w.livingEntitySize m .allies = 0 then some .enemy
  else if w.livingEntitySize m .enemy = 0 then some .allies
  else none

/-- An entity dies and, if it is in a match that has now been won, the match is decided. -/
def die (w : World) (e : ℤ) : World :=
  match (w.markDead e).sceneMatch with
  | none => w.markDead e
  | some m =>
    match (w.markDead e).winner m with
    | none => w.markDead e
    | some side => (w.markDead e).decided side

/-- The dead entities of the round list. -/
def deadList (w : World) (m : Match) : List ℤ := m.roundList.filter fun i => (w.entityAt i).death

/-- The turn goes to the place `i` of the round list, which is that of `e`. -/
def turnTo (w : World) (i : ℕ) (e : ℤ) : World :=
  w.mapMatch fun m => { m with
    roundTotal := m.roundTotal + 1, roundIterator := some i, roundEntityid := some e }

/-- What is recorded when a turn begins. -/
def beginRecord (w : World) (m : Match) (e : ℤ) : Record := .roundBegin e (w.deadList m) m.isdone

/-- What is recorded when `Match.round_end` hands over the turn of an entity. -/
def endRecord (m : Match) (e : ℤ) : Record :=
  .turnEnd e (m.isdone || decide (m.roundEntityid ≠ some e))

end World

/-- The place after `i` in the round list. -/
def Match.successor (m : Match) (i : ℕ) : ℕ := if m.roundListSize.getD 0 < i + 1 then 1 else i + 1

/-- The first place after `i`, within the given number of places, whose entity is not dead. -/
def Match.nextPlace (m : Match) (dead : ℤ → Bool) : ℕ → ℕ → Option (ℕ × ℤ)
  | 0, _ => none
  | n + 1, i =>
    match m.roundList[m.successor i - 1]? with
    | none => none
    | some e =>
      if e ∉ m.entities then none
      else if dead e then m.nextPlace dead n (m.successor i)
      else some (m.successor i, e)

/-- The place and the entity to which `next_round_entity` gives the turn. -/
def World.nextTurn (w : World) (m : Match) : Option (ℕ × ℤ) :=
  if m.roundListSize = none then none
  else m.roundIterator.bind fun i =>
    m.nextPlace (fun e => (w.entityAt e).death) m.roundList.length i

/-- A step of the logic of a match; `adding` says whether scripts add cards to the pack. -/
inductive Step (adding : Bool) : World → World → Prop
  | quiet {w w'} (h : Quiet w w') : Step adding w w'
  | shift {w} {e c : ℤ} {s t : Stack} (hne : s ≠ t) (hs : c ∈ s.get (w.pack e)) (ht : c ∉ t.get (w.pack e)) :
      Step adding w ((w.touch e).setPack e ((w.pack e).shift s t c))
  | newone {w w'} {e : ℤ} (h : Quiet w w') (hnext : w.nextCard < w'.nextCard)
      (hhold : w.nextCard ∉ (w.pack e).stackHold) :
      Step adding w ((w'.touch e).setPack e ((w'.pack e).receiveNewone w.nextCard))
  | addCard {w w'} {e : ℤ} (hadding : adding = true) (h : Quiet w w') (hnext : w.nextCard < w'.nextCard) :
      Step adding w (w'.setPack e { w'.pack e with cards := (w'.pack e).cards ++ [w.nextCard] })
  | leave {w} {e c : ℤ} (hhold : c ∈ (w.pack e).stackHold) :
      Step adding w ((w.touch e).setPack e ((w.pack e).leave c))
  | file {w} {e c : ℤ} {s : Stack} (hsettling : c ∈ (w.pack e).settling) (hs : c ∉ s.get (w.pack e)) :
      Step adding w ((w.touch e).setPack e ((w.pack e).file s c))
  | destroy {w} {e c : ℤ} (hsettling : c ∈ (w.pack e).settling) :
      Step adding w (w.setPack e ((w.pack e).destroy c))
  | lock {w} (e : ℤ) : Step adding w { w with locked := e :: w.locked }
  | unlock {w} : Step adding w { w with locked := w.locked.tail }
  | die {w} {e : ℤ} (hliving : (w.entityAt e).death = false) (hlate : w.late e = false) :
      Step adding w (w.die e)
  | pass {w} {m : Match} {i : ℕ} {e e' : ℤ} (hm : w.sceneMatch = some m) (hnext : w.nextTurn m = some (i, e')) :
      Step adding w ((w.turnTo i e').note [World.endRecord m e, w.beginRecord m e'])

/-- Several steps. -/
def Moves (adding : Bool) : World → World → Prop := Relation.ReflTransGen (Step adding)

/-! ### Errors -/

/-- The functions whose assertions are about the stacks, deaths and turns. -/
def Func.tracked : Func → Bool
  | .stackDealInsert | .stackDealRemove | .stackDiscardInsert | .stackDiscardRemove
  | .stackExhaustInsert | .stackExhaustRemove | .stackHoldInsert | .stackHoldRemove
  | .cardDealPick | .cardDraw | .dieEntity | .roundEnd | .nextRoundEntity => true
  | _ => false

/-- The errors other than a failed assertion about the stacks, deaths and turns. -/
def Fault.Plain : Fault → Prop
  | .assertion f => f.tracked = false
  | _ => True

/-- The functions that insert into a stack or remove from it. -/
def Func.stack : Func → Bool
  | .stackDealInsert | .stackDealRemove | .stackDiscardInsert | .stackDiscardRemove
  | .stackExhaustInsert | .stackExhaustRemove | .stackHoldInsert | .stackHoldRemove => true
  | _ => false

/-- A failed assertion of one of these functions, or on the pick of a random card. -/
def Fault.stackFunc : Fault → Bool
  | .assertion f => f.stack || f = .cardDealPick || f = .cardDraw
  | _ => false

/-- The stacks are such that an assertion about them may fail: they have been used too early, a card
is in two places, or a card is in a hand that does not exist yet. -/
def World.StacksBroken (w : World) : Prop :=
  w.early = true ∨ (∃ e, ¬ (w.pack e).inPlay.Nodup) ∨ ∃ e, w.nextCard ∈ (w.pack e).stackHold

/-- How a call ends in an error, from the last step it has made. -/
inductive Fail : Fault → World → World → Prop
  | plain {f w} (h : f.Plain) : Fail f w w
  | stack {f : Func} {w w'} (hf : f.stack = true) (hw : w.StacksBroken) (h : Quiet w w') :
      Fail (.assertion f) w w'
  | late {w} {e : ℤ} (hliving : (w.entityAt e).death = false) (hlate : w.late e = true) :
      Fail (.assertion .dieEntity) w (w.markDead e)
  | undone {w} {e : ℤ} {m : Match} (hlate : w.late e = false) (hm : w.sceneMatch = some m)
      (hdone : m.isdone = false) (hvictory : m.sideVictory ≠ none) :
      Fail (.assertion .done) w (w.markDead e)
  | noScene {w} {e : ℤ} (hliving : (w.entityAt e).death = false) (hscene : w.scene = none) :
      Fail .indexNil w (w.markDead e)
  | noTurn {f : Fault} {w w'} {m : Match} (hm : w.sceneMatch = some m) (hnext : w.nextTurn m = none)
      (hf : f.Plain ∨ f = .assertion .nextRoundEntity)
      (hw : ∃ total i e, w' = w.mapMatch fun m => { m with
        roundTotal := total, roundIterator := i, roundEntityid := e }) : Fail f w w'

/-! ### The track -/

/-- Who is locked stays, and the stacks of the locked entities stay unless they have been used too
early. -/
structure Kept (w w' : World) : Prop where
  locked : w'.locked = w.locked
  early : w.early = true → w'.early = true
  stack : ∀ e ∈ w.locked, w'.early = false → ∀ s : Stack, s.get (w'.pack e) = s.get (w.pack e)

/-- What a call that returns leaves as it was; no card is left unsettled. -/
structure Bracket (w w' : World) : Prop extends Kept w w' where
  settling : ∀ e, (w'.pack e).settling = (w.pack e).settling

theorem Kept.trans {w w' w'' : World} (h : Kept w w') (h' : Kept w' w'') : Kept w w'' where
  locked := h'.locked.trans h.locked
  early he := h'.early (h.early he)
  stack e he hearly s := by
    have hearly' : w'.early = false := by
      by_contra hne
      rw [h'.early (Bool.eq_true_of_not_eq_false hne)] at hearly
      cases hearly
    exact (h'.stack e (h.locked ▸ he) hearly s).trans (h.stack e he hearly' s)

theorem Bracket.refl (w : World) : Bracket w w where
  locked := rfl
  early := id
  stack _ _ _ _ := rfl
  settling _ := rfl

theorem Bracket.trans {w w' w'' : World} (h : Bracket w w') (h' : Bracket w' w'') : Bracket w w'' where
  toKept := h.toKept.trans h'.toKept
  settling e := (h'.settling e).trans (h.settling e)

/-- The track that the functions of a match follow. A call that ends in an error leaves the cards
unsettled that were so before, and those it was settling itself. -/
def logicTrack (adding : Bool) : Track Fault World where
  ok w w' := Moves adding w w' ∧ Bracket w w'
  error f w w' := ∃ u, Moves adding w u ∧ (∀ e, (w.pack e).settling <:+ (u.pack e).settling) ∧ Fail f u w'
  refl w := ⟨.refl, .refl w⟩
  trans h h' := ⟨h.1.trans h'.1, h.2.trans h'.2⟩
  trans_error := by
    rintro f s t u ⟨hmoves, hbracket⟩ ⟨v, hv, hflight, hfail⟩
    exact ⟨v, hmoves.trans hv, fun e => hbracket.settling e ▸ hflight e, hfail⟩

/-- The track of the functions that change nothing but numbers, buffs and items. -/
def quietTrack : Track Fault World where
  ok := Quiet
  error f w w' := Quiet w w' ∧ f.Plain
  refl := Quiet.refl
  trans := Quiet.trans
  trans_error h h' := ⟨h.trans h'.1, h'.2⟩

theorem Quiet.bracket {w w' : World} (h : Quiet w w') : Bracket w w' where
  locked := h.locked
  early he := h.early.trans he
  stack e _ _ := h.stack e
  settling := h.settling

/-- Quiet functions follow the track. -/
theorem follows_of_quiet {adding : Bool} {α : Type} {x : Run α} (h : quietTrack.Follows x) :
    (logicTrack adding).Follows x := by
  apply h.mono
  · intro w w' hq
    exact ⟨.single (.quiet hq), hq.bracket⟩
  · rintro f w w' ⟨hq, hf⟩
    exact ⟨w', .single (.quiet hq), hq.suffix, .plain hf⟩

end Slam.Game
