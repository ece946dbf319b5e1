import Slam.Game.Liveness

/-!
# No card is lost

`enter_match` deals the cards of a pack to its first stack, and from then on the operations of an
entity move them between four stacks. A card that is played or discarded leaves the hand, is settled,
and is filed at the end. `Pack.Conserved` says where all cards are, counted with multiplicity: in a
stack, being settled, or destroyed, and each of them was dealt or is a new one. It survives every step
of the logic.

So a card is never in two places, and the functions that insert into a stack and remove from it find
it as they assert. There is one proviso: the breakpoint before a card leaves the hand is not to use the
stacks of its owner, since `stack_hold_remove` then asserts that the card is still there. A run notes
this in `World.early`.
-/

namespace Slam.Game

open Raising Track

variable {env : Env}

/-! ### Where the cards are -/

/-- The cards of the four stacks. -/
def Pack.stacked (p : Pack) : List ℤ := p.stackDeal ++ p.stackHold ++ p.stackDiscard ++ p.stackExhaust

/-- The stacks of a pack and what is known about its cards. -/
def Pack.table (p : Pack) : Pack :=
  { stackDeal := p.stackDeal, stackDiscard := p.stackDiscard, stackExhaust := p.stackExhaust
    stackHold := p.stackHold, dealt := p.dealt, newones := p.newones, settling := p.settling
    destroyed := p.destroyed }

theorem Pack.table_of_core {p p' : Pack} (h : p'.core = p.core) : p'.table = p.table :=
  (congrArg Pack.table h :)

/-- The cards that were dealt or are new ones. -/
def Pack.known (p : Pack) : List ℤ := p.dealt ++ p.newones

/-- Every card that was dealt or is a new one is in one place, and no others are. -/
structure Pack.Conserved (p : Pack) (next : ℤ) : Prop where
  perm : (p.inPlay ++ p.destroyed).Perm (p.dealt ++ p.newones)
  nodup : (p.dealt ++ p.newones).Nodup
  lt : ∀ c ∈ p.dealt ++ p.newones, c < next

/-- The card is in exactly one stack, or it has been destroyed. -/
def Pack.Placed (p : Pack) (c : ℤ) : Prop := (∃! s : Stack, c ∈ s.get p) ∨ c ∈ p.destroyed

namespace Pack

variable {p : Pack} {s t : Stack} {c next : ℤ}

theorem inPlay_shift (hne : s ≠ t) (hs : c ∈ s.get p) : (p.shift s t c).inPlay.Perm p.inPlay := by
  rw [List.perm_iff_count]
  intro x
  have hpos := List.count_pos_iff.2 hs
  cases s <;> cases t <;>
    first
    | exact absurd rfl hne
    | by_cases hx : c = x
      · subst hx
        simp only [Stack.get] at hpos
        simp [shift, inPlay, Stack.get, Stack.set]
        omega
      · simp [shift, inPlay, Stack.get, Stack.set, List.count_erase, hx]

theorem inPlay_leave (hc : c ∈ p.stackHold) : (p.leave c).inPlay.Perm p.inPlay := by
  rw [List.perm_iff_count]
  intro x
  have hpos := List.count_pos_iff.2 hc
  by_cases hx : c = x
  · subst hx
    simp [leave, inPlay]
    omega
  · simp [leave, inPlay, List.count_erase, hx]

theorem inPlay_file (hc : c ∈ p.settling) : (p.file s c).inPlay.Perm p.inPlay := by
  rw [List.perm_iff_count]
  intro x
  have hpos := List.count_pos_iff.2 hc
  cases s <;>
  · by_cases hx : c = x
    · subst hx
      simp [file, inPlay, Stack.get, Stack.set]
      omega
    · simp [file, inPlay, Stack.get, Stack.set, List.count_erase, hx]

theorem inPlay_destroy (hc : c ∈ p.settling) :
    ((p.destroy c).inPlay ++ (p.destroy c).destroyed).Perm (p.inPlay ++ p.destroyed) := by
  rw [List.perm_iff_count]
  intro x
  have hpos := List.count_pos_iff.2 hc
  by_cases hx : c = x
  · subst hx
    simp [destroy, inPlay]
    omega
  · simp [destroy, inPlay, List.count_erase, hx]

theorem inPlay_receiveNewone (p : Pack) (c : ℤ) :
    ((p.receiveNewone c).inPlay ++ (p.receiveNewone c).destroyed).Perm (p.inPlay ++ p.destroyed ++ [c]) := by
  rw [List.perm_iff_count]
  intro x
  simp only [receiveNewone, inPlay, List.count_append]
  omega

namespace Conserved

/-- A pack into which nothing has been dealt. -/
theorem of_nil (hplay : p.inPlay = []) (hdestroyed : p.destroyed = []) (hdealt : p.dealt = [])
    (hnewones : p.newones = []) (next : ℤ) : p.Conserved next :=
  ⟨by rw [hplay, hdestroyed, hdealt, hnewones], by simp [hdealt, hnewones], by simp [hdealt, hnewones]⟩

theorem congr {p' : Pack} {next' : ℤ} (h : p.Conserved next) (htable : p'.table = p.table) (hnext : next ≤ next') :
    p'.Conserved next' := by
  have hplay : p'.inPlay = p.inPlay := (congrArg inPlay htable :)
  have hdestroyed : p'.destroyed = p.destroyed := (congrArg destroyed htable :)
  have hdealt : p'.dealt = p.dealt := (congrArg dealt htable :)
  have hnewones : p'.newones = p.newones := (congrArg newones htable :)
  refine ⟨?_, ?_, ?_⟩
  · rw [hplay, hdestroyed, hdealt, hnewones]
    exact h.perm
  · rw [hdealt, hnewones]
    exact h.nodup
  · rw [hdealt, hnewones]
    exact fun c hc => (h.lt c hc).trans_le hnext

theorem shift (h : p.Conserved next) (hne : s ≠ t) (hs : c ∈ s.get p) : (p.shift s t c).Conserved next := by
  have hghosts : (p.shift s t c).destroyed = p.destroyed ∧ (p.shift s t c).dealt = p.dealt ∧
      (p.shift s t c).newones = p.newones := by
    cases s <;> cases t <;> exact ⟨rfl, rfl, rfl⟩
  obtain ⟨hdestroyed, hdealt, hnewones⟩ := hghosts
  refine ⟨?_, ?_, ?_⟩
  · rw [hdestroyed, hdealt, hnewones]
    exact ((inPlay_shift hne hs).append_right _).trans h.perm
  · rw [hdealt, hnewones]
    exact h.nodup
  · rw [hdealt, hnewones]
    exact h.lt

theorem leave (h : p.Conserved next) (hc : c ∈ p.stackHold) : (p.leave c).Conserved next :=
  ⟨((inPlay_leave hc).append_right _).trans h.perm, h.nodup, h.lt⟩

theorem file (h : p.Conserved next) (hc : c ∈ p.settling) : (p.file s c).Conserved next := by
  have hperm := ((inPlay_file (s := s) hc).append_right p.destroyed).trans h.perm
  cases s <;> exact ⟨hperm, h.nodup, h.lt⟩

theorem destroy (h : p.Conserved next) (hc : c ∈ p.settling) : (p.destroy c).Conserved next :=
  ⟨(inPlay_destroy hc).trans h.perm, h.nodup, h.lt⟩

/-- A new card is in no place yet. -/
theorem receiveNewone {next' : ℤ} (h : p.Conserved next) (hnext : next < next') :
    (p.receiveNewone next).Conserved next' := by
  refine ⟨?_, ?_, ?_⟩
  · refine (inPlay_receiveNewone p next).trans ((h.perm.append_right _).trans ?_)
    rw [List.append_assoc]
    exact .refl _
  · show (p.dealt ++ (p.newones ++ [next])).Nodup
    rw [← List.append_assoc]
    refine h.nodup.append (List.nodup_singleton _) ?_
    intro c hc hnew
    rw [List.mem_singleton.1 hnew] at hc
    exact lt_irrefl _ (h.lt next hc)
  · intro c hc
    have hmem : c ∈ p.dealt ++ p.newones ∨ c = next := by
      have : c ∈ p.dealt ++ (p.newones ++ [next]) := hc
      simpa [or_assoc] using this
    rcases hmem with hc | rfl
    · exact (h.lt c hc).trans hnext
    · exact hnext

theorem nodup_inPlay (h : p.Conserved next) : (p.inPlay ++ p.destroyed).Nodup := h.perm.nodup_iff.2 h.nodup

theorem placed_of_mem (h : p.Conserved next) (hs : c ∈ s.get p) : p.Placed c := by
  refine .inl ⟨s, hs, fun t ht => ?_⟩
  by_contra hne
  exact not_nodup_of_mem hne ht hs (List.Nodup.of_append_left h.nodup_inPlay)

/-- A card that is not being settled has its place. -/
theorem placed_of_known (h : p.Conserved next) (hc : c ∈ p.known) (hsettling : c ∉ p.settling) : p.Placed c := by
  have hmem := h.perm.mem_iff.2 hc
  rw [Pack.inPlay] at hmem
  simp only [List.mem_append, hsettling, or_false] at hmem
  rcases hmem with (((hmem | hmem) | hmem) | hmem) | hmem
  · exact h.placed_of_mem (s := .deal) hmem
  · exact h.placed_of_mem (s := .hold) hmem
  · exact h.placed_of_mem (s := .discard) hmem
  · exact h.placed_of_mem (s := .exhaust) hmem
  · exact .inr hmem

/-- No stack has a card that does not exist yet. -/
theorem lt_of_mem (h : p.Conserved next) (hc : c ∈ p.inPlay) : c < next :=
  h.lt c (h.perm.mem_iff.1 (List.mem_append_left _ hc))

end Conserved

end Pack

/-! ### Steps and errors -/

theorem Fault.Plain.stackFunc {f : Fault} (h : f.Plain) : f.stackFunc = false := by
  cases f with
  | assertion f => cases f <;> first | rfl | cases h
  | _ => rfl

/-- The cards of every pack are conserved. -/
def World.Stacked (w : World) : Prop := ∀ e, (w.pack e).Conserved w.nextCard

namespace World.Stacked

variable {w w' : World}

theorem congr (h : w.Stacked) (htable : ∀ e, (w'.pack e).table = (w.pack e).table) (hnext : w.nextCard ≤ w'.nextCard) :
    w'.Stacked := fun e => (h e).congr (htable e) hnext

theorem of_quiet (h : w.Stacked) (hq : Quiet w w') : w'.Stacked :=
  h.congr (fun e => Pack.table_of_core (hq.packCore e)) hq.nextCard

theorem setPack (h : w.Stacked) {e : ℤ} {p : Pack} (hp : p.Conserved w.nextCard) : (w.setPack e p).Stacked := by
  intro i
  by_cases hi : i = e
  · subst hi
    rw [World.pack_setPack_self]
    exact hp
  · rw [World.pack_setPack_of_ne _ hi]
    exact h i

theorem touch (h : w.Stacked) (e : ℤ) : (w.touch e).Stacked := h

theorem markDead (h : w.Stacked) (e : ℤ) : (w.markDead e).Stacked :=
  h.congr (fun i => by rw [pack_markDead]) (le_refl _)

/-- **Every step conserves the cards.** -/
theorem step {adding : Bool} (h : w.Stacked) (hstep : Step adding w w') : w'.Stacked := by
  cases hstep with
  | quiet hq => exact h.of_quiet hq
  | shift hne hs => exact (h.touch _).setPack ((h _).shift hne hs)
  | @newone w₁ e hq hnext =>
    refine ((h.of_quiet hq).touch e).setPack ?_
    have htable : ((w₁.pack e).receiveNewone w.nextCard).table = ((w.pack e).receiveNewone w.nextCard).table :=
      (congrArg (fun p : Pack => (p.receiveNewone w.nextCard).table) (hq.packCore e) :)
    exact ((h e).receiveNewone hnext).congr htable (le_refl _)
  | @addCard w₁ e _ hq => exact (h.of_quiet hq).setPack ((h.of_quiet hq e).congr rfl (le_refl _))
  | leave hhold => exact (h.touch _).setPack ((h _).leave hhold)
  | file hsettling => exact (h.touch _).setPack ((h _).file hsettling)
  | destroy hsettling => exact h.setPack ((h _).destroy hsettling)
  | lock => exact h
  | unlock => exact h
  | @die e =>
    rw [World.die]
    split
    · exact h.markDead e
    · split
      · exact h.markDead e
      · exact h.markDead e
  | pass => exact h

theorem moves {adding : Bool} (h : w.Stacked) (hmoves : Moves adding w w') : w'.Stacked := by
  induction hmoves with
  | refl => exact h
  | tail _ hstep ih => exact ih.step hstep

/-- If the cards are conserved then no assertion about the stacks fails, unless they have been used too
early. -/
theorem stackFunc (h : w.Stacked) {f : Fault} (hfail : Fail f w w') (hf : f.stackFunc = true) : w'.early = true := by
  cases hfail with
  | plain hplain =>
    rw [hplain.stackFunc] at hf
    cases hf
  | stack _ hw hq =>
    rcases hw with hearly | ⟨e, hnodup⟩ | ⟨e, hmem⟩
    · exact hq.early.trans hearly
    · exact absurd (List.Nodup.of_append_left (h e).nodup_inPlay) hnodup
    · refine absurd ((h e).lt_of_mem (c := w.nextCard) ?_) (lt_irrefl _)
      rw [Pack.inPlay]
      simp [hmem]
  | late => cases hf
  | undone => cases hf
  | noScene => cases hf
  | noTurn _ _ hplain _ =>
    rcases hplain with hplain | rfl
    · rw [hplain.stackFunc] at hf
      cases hf
    · cases hf

theorem fail (h : w.Stacked) {f : Fault} (hfail : Fail f w w') : w'.Stacked := by
  cases hfail with
  | plain => exact h
  | stack _ _ hq => exact h.of_quiet hq
  | late => exact h.markDead _
  | undone => exact h.markDead _
  | noScene => exact h.markDead _
  | noTurn _ _ _ hw =>
    obtain ⟨total, i, e, rfl⟩ := hw
    exact h

end World.Stacked

/-! ### The cards of a pack in a match -/

/-- The entity is in a match, and the cards of its pack are those that were dealt. -/
def World.Holding (w : World) (e : ℤ) : Prop :=
  (w.entityAt e).backup ≠ none ∧ (w.pack e).cards.Perm (w.pack e).dealt

theorem World.Holding.congr {w w' : World} {e : ℤ} (h : w.Holding e)
    (hbackup : (w'.entityAt e).backup = (w.entityAt e).backup) (hcards : (w'.pack e).cards = (w.pack e).cards)
    (hdealt : (w'.pack e).dealt = (w.pack e).dealt) : w'.Holding e := by
  rw [World.Holding, hbackup, hcards, hdealt]
  exact h

theorem World.Holding.of_core {w w' : World} {e : ℤ} (h : w.Holding e)
    (hcore : (w'.entityAt e).core = (w.entityAt e).core) : w'.Holding e :=
  h.congr (congrArg Entity.backup hcore :) (congrArg (fun x => x.pack.cards) hcore :)
    (congrArg (fun x => x.pack.dealt) hcore :)

/-- Writing a pack without its cards and those dealt. -/
theorem World.Holding.setPack {w : World} {e i : ℤ} {p : Pack} (h : w.Holding i)
    (hcards : p.cards = (w.pack e).cards) (hdealt : p.dealt = (w.pack e).dealt) : (w.setPack e p).Holding i := by
  by_cases hi : i = e
  · subst hi
    exact h.congr (w.backup_setPack ..) (by rwa [World.pack_setPack_self]) (by rwa [World.pack_setPack_self])
  · exact h.congr (w.backup_setPack ..) (by rw [World.pack_setPack_of_ne _ hi]) (by rw [World.pack_setPack_of_ne _ hi])

theorem Stack.cards_set (s : Stack) (p : Pack) (cards : List ℤ) : (s.set p cards).cards = p.cards := by
  cases s <;> rfl

theorem Stack.dealt_set (s : Stack) (p : Pack) (cards : List ℤ) : (s.set p cards).dealt = p.dealt := by
  cases s <;> rfl

theorem World.Holding.markDead {w : World} {i : ℤ} (h : w.Holding i) (e : ℤ) : (w.markDead e).Holding i := by
  refine h.congr ?_ (by rw [pack_markDead]) (by rw [pack_markDead])
  rw [World.entityAt_markDead]

theorem World.Holding.step {w w' : World} {i : ℤ} (h : w.Holding i) (hstep : Step false w w') : w'.Holding i := by
  cases hstep with
  | quiet hq => exact h.of_core (hq.core i)
  | @shift e c s t =>
    refine World.Holding.setPack (w := w.touch e) h ?_ ?_
    · simp only [Pack.shift, Stack.cards_set]
      rfl
    · simp only [Pack.shift, Stack.dealt_set]
      rfl
  | @newone w₁ e hq => exact World.Holding.setPack (w := w₁.touch e) (h.of_core (hq.core i)) rfl rfl
  | addCard hadding => cases hadding
  | @leave e => exact World.Holding.setPack (w := w.touch e) h rfl rfl
  | @file e c s =>
    refine World.Holding.setPack (w := w.touch e) h ?_ ?_
    · simp only [Pack.file, Stack.cards_set]
      rfl
    · simp only [Pack.file, Stack.dealt_set]
      rfl
  | destroy => exact h.setPack rfl rfl
  | lock => exact h
  | unlock => exact h
  | @die e =>
    rw [World.die]
    split
    · exact h.markDead e
    · split
      · exact h.markDead e
      · exact h.markDead e
  | pass => exact h

theorem World.Holding.fail {w w' : World} {i : ℤ} (h : w.Holding i) {f : Fault} (hfail : Fail f w w') :
    w'.Holding i := by
  cases hfail with
  | plain => exact h
  | stack _ _ hq => exact h.of_core (hq.core i)
  | late => exact h.markDead _
  | undone => exact h.markDead _
  | noScene => exact h.markDead _
  | noTurn _ _ _ hw =>
    obtain ⟨total, j, e, rfl⟩ := hw
    exact h

/-- What an operation carries on: the cards are conserved, and the entities that `who` tells hold theirs. -/
structure Carries (who : ℤ → Prop) (w w' : World) : Prop where
  stacked : w.Stacked → w'.Stacked
  holding : ∀ i, who i → w.Holding i → w'.Holding i

/-- The track of operations that conserve the cards. An assertion about the stacks fails only if they
have been used too early. -/
def stackTrack (who : ℤ → Prop) : Track Fault World where
  ok := Carries who
  error f w w' := Carries who w w' ∧ (w.Stacked → f.stackFunc = true → w'.early = true)
  refl _ := ⟨id, fun _ _ => id⟩
  trans h h' := ⟨fun hw => h'.stacked (h.stacked hw), fun i hi hw => h'.holding i hi (h.holding i hi hw)⟩
  trans_error := by
    rintro f s t u h ⟨h', hf⟩
    refine ⟨⟨fun hw => h'.stacked (h.stacked hw), fun i hi hw => h'.holding i hi (h.holding i hi hw)⟩, ?_⟩
    exact fun hs => hf (h.stacked hs)

theorem carries_of_moves (who : ℤ → Prop) {w w' : World} (h : Moves false w w') : Carries who w w' := by
  induction h with
  | refl => exact (stackTrack who).refl w
  | tail _ hstep ih => exact (stackTrack who).trans ih ⟨fun h => h.step hstep, fun _ _ h => h.step hstep⟩

/-- The functions of a match conserve the cards. -/
theorem stack_of_logic (who : ℤ → Prop) {α : Type} {x : Run α} (h : (logicTrack false).Follows x) :
    (stackTrack who).Follows x := by
  apply h.mono
  · intro w w' hok
    exact carries_of_moves who hok.1
  · rintro f w w' ⟨u, hmoves, -, hfail⟩
    have hcarries := carries_of_moves who hmoves
    refine ⟨⟨fun hw => (hcarries.stacked hw).fail hfail, fun i hi hw => (hcarries.holding i hi hw).fail hfail⟩, ?_⟩
    exact fun hw hf => (hcarries.stacked hw).stackFunc hfail hf

/-! ### Entering a match -/

/-- The track of functions that leave the entities. -/
def entityTrack : Track Fault World where
  ok w w' := w'.entityAt = w.entityAt
  error _ w w' := w'.entityAt = w.entityAt
  refl _ := rfl
  trans h h' := h'.trans h
  trans_error h h' := h'.trans h

theorem entity_assertion (p : Prop) [Decidable p] (f : Func) : entityTrack.Follows (assertion p f) :=
  Follows.ite (fun _ => follows_pure _) fun _ => follows_throw fun _ => rfl

theorem entity_cardNew (baseid : ℤ) : entityTrack.Follows (cardNew env baseid) := by
  refine follows_get.bind fun w => (follows_modify fun w => rfl).bind fun _ => ?_
  split
  · exact follows_throw fun _ => rfl
  · exact (follows_modify fun w => rfl).bind fun _ => (entity_assertion _ _).bind fun _ => follows_pure _

theorem entity_itemNew (baseid number : ℤ) : entityTrack.Follows (itemNew env baseid number) := by
  rw [itemNew]
  split
  · exact follows_throw fun _ => rfl
  · refine follows_get.bind fun w => (follows_modify fun w => rfl).bind fun _ => ?_
    exact (follows_modify fun w => rfl).bind fun _ => (entity_assertion _ _).bind fun _ => follows_pure _

/-- What the delivery of cards and items to an entity does: it gets new cards, and its stacks stay. -/
structure Delivering (e : ℤ) (w w' : World) : Prop where
  others : ∀ i, i ≠ e → (w'.entityAt i).core = (w.entityAt i).core
  bare : (w'.entityAt e).bare = (w.entityAt e).bare
  table : (w'.pack e).table = (w.pack e).table
  hp : (w'.pack e).hp = (w.pack e).hp
  maxhp : (w'.pack e).maxhp = (w.pack e).maxhp
  span : (w'.pack e).span = (w.pack e).span
  frame : w'.frame = w.frame
  nextCard : w.nextCard ≤ w'.nextCard
  cards : ∃ new, (w'.pack e).cards = (w.pack e).cards ++ new ∧ new.Nodup ∧
    ∀ c ∈ new, w.nextCard ≤ c ∧ c < w'.nextCard

namespace Delivering

variable {e : ℤ} {w w' w'' : World}

theorem of_quiet (h : Quiet w w') (hsame : w'.entityAt = w.entityAt) (e : ℤ) : Delivering e w w' where
  others i _ := h.core i
  bare := by rw [hsame]
  table := Pack.table_of_core (h.packCore e)
  hp := by rw [World.pack, hsame, World.pack]
  maxhp := by rw [World.pack, hsame, World.pack]
  span := by rw [World.pack, hsame, World.pack]
  frame := h.frame
  nextCard := h.nextCard
  cards := ⟨[], by rw [List.append_nil, World.pack, hsame, World.pack], .nil, by simp⟩

theorem trans (h : Delivering e w w') (h' : Delivering e w' w'') : Delivering e w w'' where
  others i hi := (h'.others i hi).trans (h.others i hi)
  bare := h'.bare.trans h.bare
  table := h'.table.trans h.table
  hp := h'.hp.trans h.hp
  maxhp := h'.maxhp.trans h.maxhp
  span := h'.span.trans h.span
  frame := h'.frame.trans h.frame
  nextCard := h.nextCard.trans h'.nextCard
  cards := by
    obtain ⟨new, hcards, hnodup, hnew⟩ := h.cards
    obtain ⟨new', hcards', hnodup', hnew'⟩ := h'.cards
    refine ⟨new ++ new', by rw [hcards', hcards, List.append_assoc], hnodup.append hnodup' ?_, ?_⟩
    · -- What came later is newer.
      intro c hc hc'
      exact absurd (hnew c hc).2 (not_lt.2 (hnew' c hc').1)
    · intro c hc
      rcases List.mem_append.1 hc with hc | hc
      · exact ⟨(hnew c hc).1, (hnew c hc).2.trans_le h'.nextCard⟩
      · exact ⟨h.nextCard.trans (hnew' c hc).1, (hnew' c hc).2⟩

end Delivering

/-- The track of the delivery of cards and items to an entity. -/
def deliveryTrack (e : ℤ) : Track Fault World where
  ok := Delivering e
  error f w w' := Delivering e w w' ∧ f.Plain
  refl w := .of_quiet (.refl w) rfl e
  trans h h' := h.trans h'
  trans_error h h' := ⟨h.trans h'.1, h'.2⟩

theorem delivery_of_quiet {α : Type} {x : Run α} (h : quietTrack.Follows x) (hsame : entityTrack.Follows x) (e : ℤ) :
    (deliveryTrack e).Follows x :=
  fun w => wp_mono (wp_and (h w) (hsame w)) (fun _ _ hq => .of_quiet hq.1 hq.2 e)
    fun _ _ hq => ⟨.of_quiet hq.1.1 hq.2 e, hq.1.2⟩

/-- Writing items, equips, puppets and placeholders. -/
theorem delivery_modifyPack {e : ℤ} {f : Pack → Pack} (htable : ∀ p, (f p).table = p.table)
    (hcards : ∀ p, (f p).cards = p.cards) (hhp : ∀ p, (f p).hp = p.hp) (hmaxhp : ∀ p, (f p).maxhp = p.maxhp)
    (hspan : ∀ p, (f p).span = p.span) : (deliveryTrack e).Follows (modifyPack e f) :=
  follows_modify fun w =>
    { others := fun i hi => by rw [World.setPack, World.entityAt_setEntity_of_ne _ hi]
      bare := by rw [World.entityAt_setPack]; rfl
      table := by rw [World.pack_setPack_self]; exact htable _
      hp := by rw [World.pack_setPack_self]; exact hhp _
      maxhp := by rw [World.pack_setPack_self]; exact hmaxhp _
      span := by rw [World.pack_setPack_self]; exact hspan _
      frame := rfl
      nextCard := le_refl _
      cards := ⟨[], by rw [World.pack_setPack_self, hcards, List.append_nil], .nil, by simp⟩ }

/-- A new card. -/
theorem delivery_card (e baseid : ℤ) : (deliveryTrack e).Follows
    (cardNew env baseid >>= fun new => modifyPack e fun p => { p with cards := p.cards ++ [new] }) := by
  intro w
  rw [wp_bind]
  refine wp_mono (wp_and (wp_cardNew baseid w) (entity_cardNew baseid w)) ?_
    fun _ _ h => ⟨.of_quiet h.1.1 h.2 e, h.1.2⟩
  rintro _ u ⟨⟨hq, rfl, hnext⟩, hsame⟩
  have hnew := Delivering.of_quiet hq hsame e
  exact
    { others := fun i hi => by
        show ((u.setPack e _).entityAt i).core = _
        rw [World.setPack, World.entityAt_setEntity_of_ne _ hi]
        exact hnew.others i hi
      bare := by rw [World.entityAt_setPack]; exact hnew.bare
      table := by rw [World.pack_setPack_self]; exact hnew.table
      hp := by rw [World.pack_setPack_self]; exact hnew.hp
      maxhp := by rw [World.pack_setPack_self]; exact hnew.maxhp
      span := by rw [World.pack_setPack_self]; exact hnew.span
      frame := hnew.frame
      nextCard := hnew.nextCard
      cards := by
        refine ⟨[w.nextCard], ?_, List.nodup_singleton _, fun c hc => ?_⟩
        · rw [World.pack_setPack_self, World.pack, hsame]
          rfl
        · rw [List.mem_singleton.1 hc]
          exact ⟨le_refl _, hnext⟩ }

/-- The numbers that a pack takes from a pack of a longer span. -/
def Pack.copyNumbers (p src : Pack) : Pack :=
  { p with hp := src.hp, mp := src.mp, maxhp := src.maxhp, roundMp := src.roundMp
           strength := src.strength, armor := src.armor, shield := src.shield
           roundCards := src.roundCards, maxHoldCards := src.maxHoldCards, gold := src.gold }

/-- What a delivery does: to a pack of a shorter span the numbers are copied first. -/
theorem wp_delivery {src : Pack} {span : Span} {e : ℤ} {w : World} {Q : Unit → World → Prop}
    {E : Fault → World → Prop} (hsame : src.span = span → E (.assertion .delivery) w)
    (hlong : src.span.value ≤ span.value → Q () (w.setPack e ((w.pack e).receive src)))
    (hok : span.value < src.span.value →
      ∀ w', Delivering e (w.setPack e ((w.pack e).copyNumbers src)) w' → Q () w')
    (herror : span.value < src.span.value →
      ∀ f w', Delivering e (w.setPack e ((w.pack e).copyNumbers src)) w' → f.Plain → E f w') :
    wp (delivery env src span (modifyPack e)) Q E w := by
  rw [delivery, wp_bind, wp_assertion]
  refine ⟨fun _ => ?_, fun h => hsame (not_not.1 h)⟩
  rw [wp_ite]
  refine ⟨fun hspan => ?_, fun hspan => hlong (not_lt.1 hspan)⟩
  rw [wp_bind, wp_modifyPack]
  refine wp_mono (Q := fun _ w' => Delivering e (w.setPack e ((w.pack e).copyNumbers src)) w')
    (E := fun f w' => Delivering e (w.setPack e ((w.pack e).copyNumbers src)) w' ∧ f.Plain) ?_
    (fun _ w' => hok hspan w') fun f w' h => herror hspan f w' h.1 h.2
  refine Follows.bind (T := deliveryTrack e) (Follows.forM fun c _ => follows_get.bind fun w => delivery_card e _)
    (fun _ => ?_) _
  refine (Follows.forM fun i _ => ?_).bind fun _ => ?_
  · refine follows_get.bind fun w =>
      (delivery_of_quiet (quiet_itemNew _ _) (entity_itemNew _ _) e).bind fun new => ?_
    exact delivery_modifyPack (fun _ => rfl) (fun _ => rfl) (fun _ => rfl) (fun _ => rfl) fun _ => rfl
  refine (Follows.forM fun x _ => ?_).bind fun _ =>
    delivery_modifyPack (fun _ => rfl) (fun _ => rfl) (fun _ => rfl) (fun _ => rfl) fun _ => rfl
  refine follows_get.bind fun w =>
    (delivery_of_quiet (quiet_itemNew _ _) (entity_itemNew _ _) e).bind fun new => ?_
  exact delivery_modifyPack (fun _ => rfl) (fun _ => rfl) (fun _ => rfl) (fun _ => rfl) fun _ => rfl

/-- The entity has been dealt some cards, and nothing else has changed. -/
structure Dealing (e : ℤ) (cs : List ℤ) (w w' : World) : Prop where
  others : ∀ i, i ≠ e → w'.entityAt i = w.entityAt i
  entity : w'.entityAt e = { w.entityAt e with pack := { w.pack e with
    stackDeal := (w.pack e).stackDeal ++ cs, dealt := (w.pack e).dealt ++ cs } }
  nextCard : w'.nextCard = w.nextCard
  scene : w'.scene = w.scene

/-- The loop of `enter_match` that deals the cards of the pack. -/
theorem wp_dealLoop {e : ℤ} {cs : List ℤ} {w : World} {E : Fault → World → Prop} (hnodup : cs.Nodup)
    (hfresh : ∀ c ∈ cs, c ∉ (w.pack e).stackDeal) :
    wp (cs.forM fun c => do
      stackDealInsert e c
      modifyPack e fun p => { p with dealt := p.dealt ++ [c] }) (fun _ w' => Dealing e cs w w') E w := by
  induction cs generalizing w with
  | nil =>
    refine ⟨fun _ _ => rfl, ?_, rfl, rfl⟩
    rw [List.append_nil, List.append_nil]
    rfl
  | cons c cs ih =>
    obtain ⟨hc, hnodup⟩ := List.nodup_cons.1 hnodup
    show wp ((do
      stackDealInsert e c
      modifyPack e fun p => { p with dealt := p.dealt ++ [c] }) >>= fun _ => cs.forM _) _ E w
    simp only [stackDealInsert, stackInsert, wp_bind, wp_getPack, wp_assertion, wp_modify, wp_modifyPack,
      World.pack_touch, World.pack_setPack_self, World.setPack_setPack]
    refine ⟨fun _ => wp_mono (ih hnodup fun i hi => ?_) (fun _ w' h => ?_) fun _ _ h => h,
      fun h => absurd (hfresh c (List.mem_cons_self ..)) h⟩
    · rw [World.pack_setPack_self]
      intro hmem
      rcases List.mem_append.1 hmem with hmem | hmem
      · exact hfresh i (List.mem_cons_of_mem _ hi) hmem
      · rw [List.mem_singleton.1 hmem] at hi
        exact hc hi
    · refine ⟨fun i hi => ?_, ?_, h.nextCard, h.scene⟩
      · rw [h.others i hi, World.setPack, World.entityAt_setEntity_of_ne _ hi]
        rfl
      · rw [h.entity, World.pack_setPack_self, World.setPack, World.entityAt_setEntity_self]
        simp [Stack.get, Stack.set, World.touch]

/-- The world in which an entity has put its pack aside for that of a match. -/
def World.putAside (w : World) (e : ℤ) : World :=
  w.setEntity e { w.entityAt e with backup := some (w.pack e), pack := { span := .match } }

/-- The entity has a pack with new cards, and none of them has been dealt. -/
structure World.Undealt (w : World) (e : ℤ) : Prop where
  backup : (w.entityAt e).backup ≠ none
  table : (w.pack e).table = {}
  nodup : (w.pack e).cards.Nodup
  lt : ∀ c ∈ (w.pack e).cards, c < w.nextCard

theorem World.Undealt.of_quiet {w w' : World} {e : ℤ} (h : w.Undealt e) (hq : Quiet w w') : w'.Undealt e where
  backup := by rw [hq.backup e]; exact h.backup
  table := (Pack.table_of_core (hq.packCore e)).trans h.table
  nodup := by rw [show (w'.pack e).cards = (w.pack e).cards from (congrArg Pack.cards (hq.packCore e) :)]; exact h.nodup
  lt := by
    rw [show (w'.pack e).cards = (w.pack e).cards from (congrArg Pack.cards (hq.packCore e) :)]
    exact fun c hc => (h.lt c hc).trans_le hq.nextCard

/-- After the cards have been dealt the entity holds them. -/
theorem World.Undealt.dealing {w w' : World} {e : ℤ} {cs : List ℤ} (h : w.Undealt e)
    (hcs : cs.Perm (w.pack e).cards) (hdealing : Dealing e cs w w') :
    (w.Stacked → w'.Stacked) ∧ w'.Holding e := by
  have hpack : w'.pack e = { w.pack e with
      stackDeal := (w.pack e).stackDeal ++ cs, dealt := (w.pack e).dealt ++ cs } := by
    rw [World.pack, hdealing.entity]
  have hdeal : (w.pack e).stackDeal = [] := (congrArg Pack.stackDeal h.table :)
  have hhold : (w.pack e).stackHold = [] := (congrArg Pack.stackHold h.table :)
  have hdiscard : (w.pack e).stackDiscard = [] := (congrArg Pack.stackDiscard h.table :)
  have hexhaust : (w.pack e).stackExhaust = [] := (congrArg Pack.stackExhaust h.table :)
  have hdealt : (w.pack e).dealt = [] := (congrArg Pack.dealt h.table :)
  have hnewones : (w.pack e).newones = [] := (congrArg Pack.newones h.table :)
  have hsettling : (w.pack e).settling = [] := (congrArg Pack.settling h.table :)
  have hdestroyed : (w.pack e).destroyed = [] := (congrArg Pack.destroyed h.table :)
  constructor
  · intro hstacked i
    by_cases hi : i = e
    · subst hi
      rw [hpack]
      refine ⟨?_, ?_, ?_⟩
      · simp [Pack.inPlay, hdeal, hhold, hdiscard, hexhaust, hdealt, hnewones, hsettling, hdestroyed]
      · simpa [hdealt, hnewones] using hcs.nodup_iff.2 h.nodup
      · intro c hc
        rw [hdealing.nextCard]
        exact h.lt c (hcs.mem_iff.1 (by simpa [hdealt, hnewones] using hc))
    · rw [World.pack, hdealing.others i hi, hdealing.nextCard]
      exact hstacked i
  · refine ⟨?_, ?_⟩
    · rw [hdealing.entity]
      exact h.backup
    · rw [hpack]
      simpa [hdealt] using hcs.symm

namespace World

variable {w w' : World} {e : ℤ}

theorem pack_putAside_self (w : World) (e : ℤ) : (w.putAside e).pack e = { span := .match } := by
  simp [pack, putAside]

theorem pack_putAside_of_ne (w : World) {i : ℤ} (hi : i ≠ e) : (w.putAside e).pack i = w.pack i := by
  rw [pack, putAside, entityAt_setEntity_of_ne _ hi, pack]

theorem backup_putAside (w : World) (e : ℤ) : ((w.putAside e).entityAt e).backup = some (w.pack e) := by
  simp [putAside]

/-- A pack put aside leaves the cards of the others. -/
theorem carries_putAside (w : World) (e : ℤ) : Carries (· ≠ e) w (w.putAside e) where
  stacked h i := by
    by_cases hi : i = e
    · subst hi
      rw [pack_putAside_self]
      exact .of_nil rfl rfl rfl rfl _
    · rw [pack_putAside_of_ne _ hi]
      exact h i
  holding i hi h := h.of_core (by rw [putAside, entityAt_setEntity_of_ne _ hi])

/-- Writing a pack without its stacks leaves the cards of the others. -/
theorem carries_setPack {p : Pack} (htable : p.table = (w.pack e).table) : Carries (· ≠ e) w (w.setPack e p) where
  stacked h := h.setPack ((h e).congr htable (le_refl _))
  holding i hi h := h.of_core (by rw [setPack, entityAt_setEntity_of_ne _ hi])

/-- The pack of a match before cards are delivered to it. -/
theorem undealt_putAside (w : World) (e : ℤ) {p : Pack} (htable : p.table = {}) (hcards : p.cards = []) :
    ((w.putAside e).setPack e p).Undealt e where
  backup := by
    rw [backup_setPack, backup_putAside]
    nofun
  table := by rwa [pack_setPack_self]
  nodup := by simp [hcards]
  lt := by simp [hcards]

theorem Undealt.delivering (h : w.Undealt e) (hcards : (w.pack e).cards = []) (hdelivering : Delivering e w w') :
    w'.Undealt e := by
  obtain ⟨new, hnew, hnodup, hlt⟩ := hdelivering.cards
  rw [hcards, List.nil_append] at hnew
  refine ⟨?_, hdelivering.table.trans h.table, by rwa [hnew], fun c hc => (hlt c (hnew ▸ hc)).2⟩
  rw [show (w'.entityAt e).backup = (w.entityAt e).backup from (congrArg Entity.backup hdelivering.bare :)]
  exact h.backup

theorem carries_delivering (h : Delivering e w w') : Carries (· ≠ e) w w' := by
  refine ⟨fun hw => hw.congr (fun i => ?_) h.nextCard, fun i hi hw => hw.of_core (h.others i hi)⟩
  by_cases hi : i = e
  · subst hi
    exact h.table
  · exact Pack.table_of_core (congrArg Entity.pack (h.others i hi) :)

end World

/-- Entering a match conserves the cards, and an entity that enters with hp left holds its own. -/
theorem wp_enterMatch (henv : env.AddsNoCard) (fuel : ℕ) (e : ℤ) (w : World) :
    wp (enterMatch env (perform env fuel) fuel e)
      (fun _ w' => (stackTrack fun _ => True).ok w w' ∧ ((w.pack e).hp ≠ 0 → w'.Holding e))
      (fun f w' => (stackTrack fun _ => True).error f w w') w := by
  have hscript : ∀ f call w, ∀ a ∈ env.script f call w, (logicTrack false).Follows (perform env fuel a) :=
    script_follows (.inr henv) fuel
  rw [enterMatch, wp_bind, wp_get, wp_bind, wp_assertion]
  refine ⟨fun hbackup => ?_, fun _ => ⟨(stackTrack _).refl w, nofun⟩⟩
  -- The entity is in no match yet, so it need not be told apart from the others.
  have hlift {w' : World} (h : Carries (· ≠ e) w w') : Carries (fun _ => True) w w' := by
    refine ⟨h.stacked, fun i _ hi => h.holding i ?_ hi⟩
    rintro rfl
    exact hi.1 hbackup
  rw [wp_bind, wp_modifyEntity, wp_bind]
  have haside : w.setEntity e { w.entityAt e with
      backup := some (w.entityAt e).pack, pack := { span := .match } } = w.putAside e := rfl
  rw [haside]
  -- What is left to do after the delivery, from a world with an undealt pack.
  have hrest (u : World) (hcarries : Carries (· ≠ e) w u) (hundealt : u.Undealt e)
      (hhp : (w.pack e).hp ≠ 0 → (u.pack e).hp ≠ 0 ∨ (u.pack e).cards = []) : wp (do
        if (← getPack e).hp = 0 then toDie env (perform env fuel) fuel e
        else
          notifyClient env e
          (env.pairs (← getPack e).cards).forM fun c => do
            stackDealInsert e c
            modifyPack e fun p => { p with dealt := p.dealt ++ [c] })
      (fun _ w' => (stackTrack fun _ => True).ok w w' ∧ ((w.pack e).hp ≠ 0 → w'.Holding e))
      (fun f w' => (stackTrack fun _ => True).error f w w') u := by
    rw [wp_bind, wp_getPack, wp_ite]
    constructor
    · intro hzero
      refine wp_mono (stack_of_logic (fun _ => True) (follows_toDie hscript e) u) ?_ ?_
      · intro _ w' hdie
        refine ⟨(stackTrack _).trans (hlift hcarries) hdie, fun hne => ?_⟩
        have hcards := (hhp hne).resolve_left (not_not.2 hzero)
        refine hdie.holding e trivial ⟨hundealt.backup, ?_⟩
        rw [hcards, show (u.pack e).dealt = [] from (congrArg Pack.dealt hundealt.table :)]
      · intro f w' herror
        exact (stackTrack _).trans_error (hlift hcarries) herror
    · intro _
      rw [wp_bind]
      refine wp_mono (quiet_notifyClient e u) ?_ ?_
      · intro _ v hq
        rw [wp_bind, wp_getPack]
        have hundealt' := hundealt.of_quiet hq
        have hfresh : (v.pack e).stackDeal = [] := (congrArg Pack.stackDeal hundealt'.table :)
        refine wp_mono (wp_dealLoop ((env.pairs_perm _).nodup_iff.2 hundealt'.nodup) fun c _ => ?_) ?_ fun _ _ h => h
        · rw [hfresh]
          exact List.not_mem_nil
        · intro _ w' hdealing
          obtain ⟨hstacked, hholding⟩ := hundealt'.dealing (env.pairs_perm _) hdealing
          refine ⟨hlift ⟨fun hw => hstacked ((hcarries.stacked hw).of_quiet hq), fun i hi hw => ?_⟩, fun _ => hholding⟩
          exact ((hcarries.holding i hi hw).of_core (hq.core i)).of_core (by rw [hdealing.others i hi])
      · rintro f w' ⟨hq, hf⟩
        refine ⟨hlift ⟨fun hw => (hcarries.stacked hw).of_quiet hq, fun i hi hw => ?_⟩, fun _ h => ?_⟩
        · exact (hcarries.holding i hi hw).of_core (hq.core i)
        · rw [hf.stackFunc] at h
          cases h
  have hnumbers : Carries (· ≠ e) w
      ((w.putAside e).setPack e (((w.putAside e).pack e).copyNumbers (w.entityAt e).pack)) :=
    (stackTrack _).trans (w.carries_putAside e) (World.carries_setPack rfl)
  refine wp_delivery ?_ ?_ ?_ ?_
  · intro _
    exact ⟨hlift (w.carries_putAside e), nofun⟩
  · intro _
    refine hrest _ ((stackTrack _).trans (w.carries_putAside e) (World.carries_setPack rfl)) ?_ fun _ => .inr ?_
    · refine w.undealt_putAside e ?_ ?_ <;> rw [World.pack_putAside_self] <;> rfl
    · rw [World.pack_setPack_self, World.pack_putAside_self]
      rfl
  · intro _ u hdelivering
    have hcarries : Carries (· ≠ e) w u := (stackTrack _).trans hnumbers (World.carries_delivering hdelivering)
    refine hrest u hcarries (World.Undealt.delivering ?_ ?_ hdelivering) fun hne => .inl ?_
    · refine w.undealt_putAside e ?_ ?_ <;> rw [World.pack_putAside_self] <;> rfl
    · rw [World.pack_setPack_self, World.pack_putAside_self]
      rfl
    · rw [hdelivering.hp, World.pack_setPack_self]
      exact hne
  · intro _ f w' hdelivering hf
    refine ⟨hlift ?_, fun _ h => ?_⟩
    · exact (stackTrack _).trans hnumbers (World.carries_delivering hdelivering)
    · rw [hf.stackFunc] at h
      cases h

/-! ### Cards that are being settled -/

/-- No card has left a hand without having been filed. -/
def World.Settled (w : World) : Prop := ∀ e, (w.pack e).settling = []

/-- The track of functions that, if they return, leave no card unsettled. -/
def settledTrack : Track Fault World where
  ok w w' := w.Settled → w'.Settled
  error _ _ _ := True
  refl _ := id
  trans h h' hw := h' (h hw)
  trans_error _ _ := trivial

theorem settled_of_logic {adding : Bool} {α : Type} {x : Run α} (h : (logicTrack adding).Follows x) :
    settledTrack.Follows x :=
  h.mono (fun _ _ hok hw e => (hok.2.settling e).trans (hw e)) fun _ _ _ _ => trivial

theorem settled_of_quiet {α : Type} {x : Run α} (h : quietTrack.Follows x) : settledTrack.Follows x :=
  settled_of_logic (follows_of_quiet h : (logicTrack true).Follows x)

theorem settled_modifyPack {e : ℤ} {f : Pack → Pack} (h : ∀ p, (f p).settling = p.settling) :
    settledTrack.Follows (modifyPack e f) := by
  refine follows_modify fun w hw i => ?_
  rw [settling_setPack]
  split_ifs
  · exact (h _).trans (hw e)
  · exact hw i

theorem settled_delivery (src : Pack) (span : Span) (e : ℤ) :
    settledTrack.Follows (delivery env src span (modifyPack e)) := by
  refine (settled_of_quiet (quiet_assertion _ rfl)).bind fun _ => ?_
  refine Follows.ite (fun _ => ?_) fun _ => settled_modifyPack fun _ => rfl
  refine Follows.bind (settled_modifyPack (by exact fun _ => rfl)) fun _ => ?_
  refine (Follows.forM fun c _ => follows_get.bind fun w => ?_).bind fun _ => ?_
  · refine Follows.bind (fun w => ?_) fun new => settled_modifyPack fun _ => rfl
    exact wp_mono (wp_cardNew _ w) (fun _ _ h hw i => (h.1.settling i).trans (hw i)) fun _ _ _ => trivial
  refine (Follows.forM fun i _ => follows_get.bind fun w => ?_).bind fun _ => ?_
  · exact (settled_of_quiet (quiet_itemNew _ _)).bind fun new => settled_modifyPack fun _ => rfl
  refine (Follows.forM fun x _ => follows_get.bind fun w => ?_).bind fun _ => settled_modifyPack fun _ => rfl
  exact (settled_of_quiet (quiet_itemNew _ _)).bind fun new => settled_modifyPack fun _ => rfl

theorem settled_enterMatch (env : Env) (fuel : ℕ) (e : ℤ) :
    settledTrack.Follows (enterMatch env (perform env fuel) fuel e) := by
  refine follows_get.bind fun w => (settled_of_quiet (quiet_assertion _ rfl)).bind fun _ => ?_
  refine (follows_modify fun w hw i => ?_).bind fun _ => (settled_delivery _ _ e).bind fun _ => ?_
  · by_cases hi : i = e
    · subst hi
      simp [World.pack]
    · rw [World.pack, World.entityAt_setEntity_of_ne _ hi]
      exact hw i
  refine (settled_of_quiet (quiet_getPack e)).bind fun p => ?_
  refine Follows.ite (fun _ => settled_of_logic (follows_toDie (script_follows_true env fuel) e)) fun _ => ?_
  refine (settled_of_quiet (quiet_notifyClient e)).bind fun _ => ?_
  refine (settled_of_quiet (quiet_getPack e)).bind fun p => Follows.forM fun c _ => ?_
  refine Follows.bind ?_ fun _ => settled_modifyPack fun _ => rfl
  refine (settled_of_quiet (quiet_getPack e)).bind fun p => ?_
  refine Follows.bind (Follows.ite (fun _ => follows_pure _) fun _ => follows_throw fun _ => trivial) fun _ => ?_
  exact (follows_modify fun w hw => hw).bind fun _ => settled_modifyPack fun _ => rfl

/-! ### Runs -/

/-- An entity enters a match, or an operation on its stacks. -/
inductive StackCall
  | enterMatch (e : ℤ)
  | cardDeal (e : ℤ)
  | cardDrawFromStackdeal (e number : ℤ)
  | cardDrawFromStackdiscard (e number : ℤ)
  | cardDrawFromStackexhaust (e number : ℤ)
  | shuffleStackdiscard (e : ℤ)
  | shuffleStackexhaust (e : ℤ)
  | stackHoldNewone (e baseid : ℤ)
  | cardPlay (e c : ℤ) (pick : Option ℤ)
  | cardDiscard (e c : ℤ) (passive : Bool)
  | roundEnd (e : ℤ)

/-- What an operation does; its scripts may call each other to the depth of the fuel. -/
def StackCall.run (env : Env) (fuel : ℕ) : StackCall → Run Unit
  | enterMatch e => Game.enterMatch env (perform env fuel) fuel e
  | cardDeal e => Game.cardDeal env (perform env fuel) e
  | cardDrawFromStackdeal e number => Game.cardDrawFromStackdeal env e number
  | cardDrawFromStackdiscard e number => Game.cardDrawFromStackdiscard env e number
  | cardDrawFromStackexhaust e number => Game.cardDrawFromStackexhaust env e number
  | shuffleStackdiscard e => Game.shuffleStackdiscard env e
  | shuffleStackexhaust e => Game.shuffleStackexhaust env e
  | stackHoldNewone e baseid => Game.stackHoldNewone env e baseid
  | cardPlay e c pick => discard <| Game.cardPlay env (perform env fuel) e c pick
  | cardDiscard e c passive => Game.cardDiscard env (perform env fuel) e c passive
  | roundEnd e => Game.roundEnd env (perform env fuel) fuel e

/-- The operations other than the entry into a match follow the track of a match. -/
theorem StackCall.follows_run {adding : Bool} (henv : adding = true ∨ env.AddsNoCard) (fuel : ℕ) (call : StackCall)
    (hcall : ∀ e, call ≠ .enterMatch e) : (logicTrack adding).Follows (call.run env fuel) := by
  have hscript := script_follows henv fuel
  cases call with
  | enterMatch e => exact absurd rfl (hcall e)
  | cardDeal e => exact follows_cardDeal hscript e
  | cardDrawFromStackdeal e number => exact follows_cardDrawFromStackdeal e number
  | cardDrawFromStackdiscard e number => exact follows_cardDrawFromStackdiscard e number
  | cardDrawFromStackexhaust e number => exact follows_cardDrawFromStackexhaust e number
  | shuffleStackdiscard e => exact follows_shuffleStackdiscard e
  | shuffleStackexhaust e => exact follows_shuffleStackexhaust e
  | stackHoldNewone e baseid => exact follows_stackHoldNewone e baseid
  | cardPlay e c pick => exact (follows_cardPlay hscript e c pick).map _
  | cardDiscard e c passive => exact follows_cardDiscard hscript e c passive
  | roundEnd e => exact follows_roundEnd hscript e

theorem StackCall.stack_run (henv : env.AddsNoCard) (fuel : ℕ) (call : StackCall) :
    (stackTrack fun _ => True).Follows (call.run env fuel) := by
  by_cases hcall : ∃ e, call = .enterMatch e
  · obtain ⟨e, rfl⟩ := hcall
    exact fun w => wp_mono (wp_enterMatch henv fuel e w) (fun _ _ h => h.1) fun _ _ h => h
  · exact stack_of_logic _ (call.follows_run (.inr henv) fuel (not_exists.1 hcall))

theorem StackCall.settled_run (env : Env) (fuel : ℕ) (call : StackCall) : settledTrack.Follows (call.run env fuel) := by
  by_cases hcall : ∃ e, call = .enterMatch e
  · obtain ⟨e, rfl⟩ := hcall
    exact settled_enterMatch env fuel e
  · have hlogic : (logicTrack true).Follows (call.run env fuel) :=
      call.follows_run (.inl rfl) fuel (not_exists.1 hcall)
    exact settled_of_logic hlogic

/-- When an operation is called from outside no entity is locked, and nothing has been used too early. -/
def World.atRest (w : World) : World := { w with locked := [], early := false }

/-- Operations one after the other, whether they return or raise. -/
def stackMachine (env : Env) : Machine World (ℕ × StackCall) where
  step w event := some (endState (event.2.run env event.1) w.atRest)

/-- An operation carries on what there is, whatever comes of it. -/
theorem carries_of_step (henv : env.AddsNoCard) {w w' : World} {event : ℕ × StackCall}
    (h : (stackMachine env).step w event = some w') : Carries (fun _ => True) w w' := by
  cases h
  have hrun : Carries (fun _ => True) w.atRest (endState (event.2.run env event.1) w.atRest) :=
    endState_of_wp (P := Carries (fun _ => True) w.atRest)
      (wp_mono (event.2.stack_run henv event.1 _) (fun _ _ h => h) fun _ _ h => h.1)
  exact ⟨fun hw => hrun.stacked hw, fun i hi hw => hrun.holding i hi hw⟩

theorem carries_of_run (henv : env.AddsNoCard) {w w' : World} {es : List (ℕ × StackCall)}
    (h : (stackMachine env).run w es = some w') : Carries (fun _ => True) w w' :=
  Machine.invariant (I := Carries (fun _ => True) w)
    (fun _ _ _ hw hstep => (stackTrack _).trans hw (carries_of_step henv hstep)) ((stackTrack _).refl w) h

/-- **No card is lost.** From a world in which nothing has been dealt, in every run of operations whose
scripts add no cards to packs, whether the operations return or raise: once an entity with hp left has
entered a match its four stacks are disjoint, every card of its pack is in exactly one of them unless
it is being settled or has been destroyed, the stacks have no other cards than those and the new ones,
and no operation fails an assertion about stacks unless its scripts have used the stacks of an entity
whose card was about to leave the hand. If the operations return then no card is left unsettled. -/
theorem cards_conserved (henv : env.AddsNoCard) {w₀ w₁ w₂ u : World} {es es' : List (ℕ × StackCall)} {fuel : ℕ}
    {e : ℤ} (hempty : ∀ i, (w₀.pack i).table = {}) (hrun : (stackMachine env).run w₀ es = some w₁)
    (henter : enterMatch env (perform env fuel) fuel e w₁.atRest = .ok () w₂) (hliving : (w₁.pack e).hp ≠ 0)
    (hrun' : (stackMachine env).run w₂ es' = some u) :
    (u.pack e).stacked.Nodup ∧
    (∀ c ∈ (u.pack e).cards, c ∉ (u.pack e).settling → c ∉ (u.pack e).destroyed →
      ∃! s : Stack, c ∈ s.get (u.pack e)) ∧
    (∀ c ∈ (u.pack e).stacked, c ∈ (u.pack e).cards ∨ c ∈ (u.pack e).newones) ∧
    (∀ n call f w, StackCall.run env n call u.atRest = .error f w → w.early = false → f.stackFunc = false) ∧
    ((stackMachine env).Guarded (fun w event => Returns (event.2.run env event.1) w.atRest) w₀ es →
      (stackMachine env).Guarded (fun w event => Returns (event.2.run env event.1) w.atRest) w₂ es' →
      (u.pack e).settling = []) := by
  have hstacked₀ : w₀.Stacked := fun i =>
    .of_nil (p := w₀.pack i) (congrArg Pack.inPlay (hempty i) :) (congrArg Pack.destroyed (hempty i) :)
      (congrArg Pack.dealt (hempty i) :) (congrArg Pack.newones (hempty i) :) _
  have hstacked₁ : w₁.Stacked := (carries_of_run henv hrun).stacked hstacked₀
  obtain ⟨hcarries, hholding⟩ := (wp_ok henter).1 (wp_enterMatch henv fuel e w₁.atRest)
  have hstacked : u.Stacked := (carries_of_run henv hrun').stacked (hcarries.stacked hstacked₁)
  obtain ⟨-, hcards⟩ := (carries_of_run henv hrun').holding e trivial (hholding hliving)
  have hplay : (u.pack e).inPlay.Nodup := List.Nodup.of_append_left (hstacked e).nodup_inPlay
  refine ⟨List.Nodup.of_append_left hplay, ?_, ?_, ?_, ?_⟩
  · intro c hc hsettling hdestroyed
    have hknown : c ∈ (u.pack e).known := List.mem_append_left _ (hcards.mem_iff.1 hc)
    exact ((hstacked e).placed_of_known hknown hsettling).resolve_right hdestroyed
  · intro c hc
    have hmem : c ∈ (u.pack e).dealt ++ (u.pack e).newones :=
      (hstacked e).perm.mem_iff.1 (List.mem_append_left _ (List.mem_append_left _ hc))
    exact (List.mem_append.1 hmem).imp_left hcards.mem_iff.2
  · intro n call f w hcall hearly
    by_contra hf
    have hbroken := ((wp_error hcall).1 (call.stack_run henv n u.atRest)).2 hstacked (Bool.eq_true_of_not_eq_false hf)
    rw [hearly] at hbroken
    cases hbroken
  · intro hreturns hreturns'
    have hsettled₀ : w₀.Settled := fun i => (congrArg Pack.settling (hempty i) :)
    have hstep (w : World) (event : ℕ × StackCall) (w' : World) (hw : w.Settled)
        (hreturn : Returns (event.2.run env event.1) w.atRest)
        (h : (stackMachine env).step w event = some w') : w'.Settled := by
      cases h
      exact (wp_ok (eq_ok_of_returns hreturn)).1 (event.2.settled_run env event.1 w.atRest) hw
    have hsettled₁ := Machine.invariant_of_guarded hstep hsettled₀ hreturns hrun
    have hsettled₂ : w₂.Settled := (wp_ok henter).1 (settled_enterMatch env fuel e w₁.atRest) hsettled₁
    exact Machine.invariant_of_guarded hstep hsettled₂ hreturns' hrun' e

/-- An entity with two cards, before its match. -/
def deckOfTwo : World where
  entityAt _ := { pack := { hp := 9, maxhp := 9, mp := 2, roundCards := 3, cards := [0, 1] } }
  cardAt _ := { baseid := 1, base := {} }
  nextCard := 2

theorem cards_conserved_deckOfTwo : ∃ w u,
    enterMatch plainEnv (perform plainEnv 1) 1 7 deckOfTwo.atRest = .ok () w ∧
    (stackMachine plainEnv).run w [(1, .cardDeal 7), (1, .cardPlay 7 2 none), (9, .roundEnd 7)] = some u ∧
    (u.pack 7).stacked.Nodup ∧ (u.pack 7).settling = [] := by
  have hadds : plainEnv.AddsNoCard := fun _ _ _ _ h => absurd h List.not_mem_nil
  have hstart : (stackMachine plainEnv).run deckOfTwo [] = some deckOfTwo := rfl
  have henter := eq_ok_of_returns
    (show Returns (enterMatch plainEnv (perform plainEnv 1) 1 7) deckOfTwo.atRest by decide +kernel)
  obtain ⟨u, hrun⟩ := Option.isSome_iff_exists.1 (show ((stackMachine plainEnv).run
    (endState (enterMatch plainEnv (perform plainEnv 1) 1 7) deckOfTwo.atRest)
    [(1, .cardDeal 7), (1, .cardPlay 7 2 none), (9, .roundEnd 7)]).isSome from rfl)
  obtain ⟨hnodup, -, -, -, hsettled⟩ := cards_conserved hadds (fun _ => rfl) hstart henter (by decide) hrun
  exact ⟨_, u, henter, hrun, hnodup, hsettled trivial (by decide +kernel)⟩

end Slam.Game
