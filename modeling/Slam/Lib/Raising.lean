import Mathlib.Tactic

/-!
# Programs that may raise

A program over a state returns a value or raises an error, and what it has done to the state so far
stays done when it raises: this is `EStateM`. `wp x Q E s` says that running `x` from `s` ends with
`Q` if it returns and with `E` if it raises; its equations for the constructs of a program are simp
lemmas, so that a program without loops is executed by `simp`.

`Track` is for what is true of long programs step by step: a reflexive and transitive relation
between states for programs that return, and one for each error that may follow it. A program
follows a track if all its parts do.

`Agree` compares two programs: they do the same from the states of an invariant, which they keep.
-/

namespace Raising

variable {ε σ α β : Type}

/-- Run from `s`, the program returns with `Q` or raises with `E`. -/
def wp (x : EStateM ε σ α) (Q : α → σ → Prop) (E : ε → σ → Prop) (s : σ) : Prop :=
  match x s with
  | .ok a s' => Q a s'
  | .error e s' => E e s'

/-- The state in which the program ends, in either way. -/
def endState (x : EStateM ε σ α) (s : σ) : σ :=
  match x s with
  | .ok _ s' => s'
  | .error _ s' => s'

/-- The error that the program raises, if it raises one. -/
def fault (x : EStateM ε σ α) (s : σ) : Option ε :=
  match x s with
  | .ok _ _ => none
  | .error e _ => some e

/-- The program returns. -/
def Returns (x : EStateM ε σ α) (s : σ) : Prop := wp x (fun _ _ => True) (fun _ _ => False) s

instance decidableWp (x : EStateM ε σ α) (Q : α → σ → Prop) (E : ε → σ → Prop) [∀ a t, Decidable (Q a t)]
    [∀ e t, Decidable (E e t)] (s : σ) : Decidable (wp x Q E s) :=
  match h : x s with
  | .ok a t => decidable_of_iff (Q a t) (by rw [wp, h])
  | .error e t => decidable_of_iff (E e t) (by rw [wp, h])

instance decidableReturns (x : EStateM ε σ α) (s : σ) : Decidable (Returns x s) :=
  inferInstanceAs (Decidable (wp x (fun _ _ => True) (fun _ _ => False) s))

theorem eq_ok_of_returns {x : EStateM ε σ Unit} {s : σ} (h : Returns x s) : x s = .ok () (endState x s) := by
  unfold Returns wp at h
  rw [endState]
  cases hx : x s with
  | ok a s' => rfl
  | error e s' => rw [hx] at h; exact h.elim

theorem eq_error_of_fault {x : EStateM ε σ α} {s : σ} {e : ε} (h : fault x s = some e) :
    x s = .error e (endState x s) := by
  unfold fault at h
  rw [endState]
  cases hx : x s with
  | ok a s' => rw [hx] at h; cases h
  | error e' s' => rw [hx] at h; cases h; rfl

/-- A program whose first part returns goes on with the second. -/
theorem bind_of_ok {x : EStateM ε σ β} {f : β → EStateM ε σ α} {s t : σ} {b : β} (h : x s = .ok b t) :
    (x >>= f) s = f b t := by
  show EStateM.bind x f s = _
  rw [EStateM.bind, h]

/-- A program whose first part raises raises. -/
theorem bind_of_error {x : EStateM ε σ β} {f : β → EStateM ε σ α} {s t : σ} {e : ε} (h : x s = .error e t) :
    (x >>= f) s = .error e t := by
  show EStateM.bind x f s = _
  rw [EStateM.bind, h]

/-- A program that returns has got through its first part. -/
theorem ok_of_bind {x : EStateM ε σ β} {f : β → EStateM ε σ α} {s t : σ} {a : α} (h : (x >>= f) s = .ok a t) :
    ∃ b u, x s = .ok b u ∧ f b u = .ok a t := by
  cases hx : x s with
  | ok b u => exact ⟨b, u, rfl, (bind_of_ok hx).symm.trans h⟩
  | error e u => rw [bind_of_error hx] at h; cases h

theorem endState_of_ok {x : EStateM ε σ α} {s t : σ} {a : α} (h : x s = .ok a t) : endState x s = t := by
  rw [endState, h]

/-- What a program returns does not change the state in which it ends. -/
theorem endState_bind_pure (x : EStateM ε σ β) (f : β → α) (s : σ) : endState (x >>= fun b => pure (f b)) s = endState x s := by
  unfold endState
  show (match EStateM.bind x (fun b => pure (f b)) s with | .ok _ t => t | .error _ t => t) = _
  rw [EStateM.bind]
  cases x s <;> rfl

section Rules

variable {Q : α → σ → Prop} {E : ε → σ → Prop} {s : σ}

theorem wp_ok {x : EStateM ε σ α} {a : α} {s' : σ} (h : x s = .ok a s') : wp x Q E s ↔ Q a s' := by
  rw [wp, h]

theorem wp_error {x : EStateM ε σ α} {e : ε} {s' : σ} (h : x s = .error e s') :
    wp x Q E s ↔ E e s' := by
  rw [wp, h]

/-- Programs that do the same from two states end in the same way. -/
theorem wp_congr {x y : EStateM ε σ α} {t : σ} (h : x s = y t) : wp x Q E s ↔ wp y Q E t := by
  rw [wp, wp, h]

@[simp] theorem wp_pure (a : α) : wp (pure a : EStateM ε σ α) Q E s ↔ Q a s := Iff.rfl

@[simp] theorem wp_bind (x : EStateM ε σ β) (f : β → EStateM ε σ α) :
    wp (x >>= f) Q E s ↔ wp x (fun b => wp (f b) Q E) E s := by
  unfold wp
  show (match EStateM.bind x f s with | .ok a s' => _ | .error e s' => _) ↔ _
  rw [EStateM.bind]
  cases x s <;> rfl

@[simp] theorem wp_map (x : EStateM ε σ β) (f : β → α) :
    wp (f <$> x) Q E s ↔ wp x (fun b => Q (f b)) E s := by
  unfold wp
  show (match EStateM.map f x s with | .ok a s' => _ | .error e s' => _) ↔ _
  rw [EStateM.map]
  cases x s <;> rfl

theorem wp_discard {Q : PUnit → σ → Prop} (x : EStateM ε σ β) :
    wp (discard x) Q E s ↔ wp x (fun _ => Q ⟨⟩) E s :=
  wp_map x fun _ => PUnit.unit

@[simp] theorem wp_get {Q : σ → σ → Prop} : wp (get : EStateM ε σ σ) Q E s ↔ Q s s := Iff.rfl

@[simp] theorem wp_set {Q : PUnit → σ → Prop} (t : σ) :
    wp (set t : EStateM ε σ PUnit) Q E s ↔ Q ⟨⟩ t := Iff.rfl

@[simp] theorem wp_modify {Q : PUnit → σ → Prop} (f : σ → σ) :
    wp (modify f : EStateM ε σ PUnit) Q E s ↔ Q ⟨⟩ (f s) := Iff.rfl

@[simp] theorem wp_throw (e : ε) : wp (throw e : EStateM ε σ α) Q E s ↔ E e s := Iff.rfl

@[simp] theorem wp_ite (c : Prop) [Decidable c] (x y : EStateM ε σ α) :
    wp (if c then x else y) Q E s ↔ (c → wp x Q E s) ∧ (¬ c → wp y Q E s) := by
  by_cases h : c <;> simp [h]

/-- Every program ends in one way or the other. -/
theorem wp_top (x : EStateM ε σ α) (s : σ) : wp x (fun _ _ => True) (fun _ _ => True) s := by
  unfold wp
  cases x s <;> trivial

/-- The rule of consequence. -/
theorem wp_mono {Q' : α → σ → Prop} {E' : ε → σ → Prop} {x : EStateM ε σ α} (h : wp x Q E s)
    (hQ : ∀ a s', Q a s' → Q' a s') (hE : ∀ e s', E e s' → E' e s') : wp x Q' E' s := by
  unfold wp at h ⊢
  cases hx : x s with
  | ok a s' => rw [hx] at h; exact hQ a s' h
  | error e s' => rw [hx] at h; exact hE e s' h

/-- A program that does not raise returns. -/
theorem exists_ok_of_wp {x : EStateM ε σ α} (h : wp x Q (fun _ _ => False) s) : ∃ a t, x s = .ok a t ∧ Q a t := by
  unfold wp at h
  cases hx : x s with
  | ok a t => rw [hx] at h; exact ⟨a, t, rfl, h⟩
  | error e t => rw [hx] at h; exact h.elim

/-- A program that does not return raises. -/
theorem exists_error_of_wp {x : EStateM ε σ α} (h : wp x (fun _ _ => False) E s) : ∃ e t, x s = .error e t ∧ E e t := by
  unfold wp at h
  cases hx : x s with
  | ok a t => rw [hx] at h; exact h.elim
  | error e t => rw [hx] at h; exact ⟨e, t, rfl, h⟩

/-- A program is known to return with a state. -/
theorem eq_ok_of_wp {x : EStateM ε σ Unit} {t : σ} (h : wp x (fun _ s' => s' = t) (fun _ _ => False) s) :
    x s = .ok () t := by
  unfold wp at h
  cases hx : x s with
  | ok a s' => rw [hx] at h; rw [h]
  | error e s' => rw [hx] at h; exact h.elim

/-- A program is known to raise. -/
theorem eq_error_of_wp {x : EStateM ε σ α} {t : σ} {e : ε}
    (h : wp x (fun _ _ => False) (fun e' s' => e' = e ∧ s' = t) s) : x s = .error e t := by
  unfold wp at h
  cases hx : x s with
  | ok a s' => rw [hx] at h; exact h.elim
  | error e' s' => rw [hx] at h; rw [h.1, h.2]

/-- Two things that are known of a program. -/
theorem wp_and {Q' : α → σ → Prop} {E' : ε → σ → Prop} {x : EStateM ε σ α} (h : wp x Q E s) (h' : wp x Q' E' s) :
    wp x (fun a s' => Q a s' ∧ Q' a s') (fun e s' => E e s' ∧ E' e s') s := by
  unfold wp at h h' ⊢
  cases hx : x s with
  | ok a s' => rw [hx] at h h'; exact ⟨h, h'⟩
  | error e s' => rw [hx] at h h'; exact ⟨h, h'⟩

/-- What is only asked for under a condition. -/
theorem wp_imp {P : Prop} {x : EStateM ε σ α} (h : P → wp x Q E s) :
    wp x (fun a t => P → Q a t) (fun e t => P → E e t) s := by
  unfold wp at h ⊢
  cases hx : x s with
  | ok a t => rw [hx] at h; exact h
  | error e t => rw [hx] at h; exact h

/-- What holds at the end in either case holds of the state in which the program ends. -/
theorem endState_of_wp {P : σ → Prop} {x : EStateM ε σ α} (h : wp x (fun _ => P) (fun _ => P) s) :
    P (endState x s) := by
  unfold wp at h
  unfold endState
  cases hx : x s with
  | ok a s' => rw [hx] at h; exact h
  | error e s' => rw [hx] at h; exact h

/-- A loop over a list keeps what each of its passes keeps. -/
theorem wp_forM {I : σ → Prop} {xs : List β} {f : β → EStateM ε σ PUnit}
    (h : ∀ b ∈ xs, ∀ s, I s → wp (f b) (fun _ => I) E s) (hs : I s) :
    wp (xs.forM f) (fun _ => I) E s := by
  induction xs generalizing s with
  | nil => exact hs
  | cons b xs ih =>
    show wp (f b >>= fun _ => xs.forM f) _ _ _
    rw [wp_bind]
    refine wp_mono (h b (List.mem_cons_self ..) s hs) ?_ (fun _ _ he => he)
    intro _ s' hs'
    exact ih (fun c hc => h c (List.mem_cons_of_mem _ hc)) hs'

/-- A loop that carries a value keeps what each of its passes keeps. -/
theorem wp_foldlM {I : α → σ → Prop} {xs : List β} {f : α → β → EStateM ε σ α} {a : α}
    (h : ∀ b ∈ xs, ∀ a s, I a s → wp (f a b) I E s) (hs : I a s) : wp (xs.foldlM f a) I E s := by
  induction xs generalizing a s with
  | nil => exact hs
  | cons b xs ih =>
    rw [List.foldlM_cons, wp_bind]
    refine wp_mono (h b (List.mem_cons_self ..) a s hs) ?_ (fun _ _ he => he)
    intro a' s' hs'
    exact ih (fun c hc => h c (List.mem_cons_of_mem _ hc)) hs'

/-- A loop whose invariant speaks of the part of the list that is done. -/
theorem wp_foldlM_done {I : List β → α → σ → Prop} {xs : List β} {f : α → β → EStateM ε σ α} {a : α}
    (h : ∀ done b rest a s, xs = done ++ b :: rest → I done a s → wp (f a b) (I (done ++ [b])) E s)
    (hs : I [] a s) : wp (xs.foldlM f a) (I xs) E s := by
  suffices hrest : ∀ done rest a s, xs = done ++ rest → I done a s → wp (rest.foldlM f a) (I xs) E s from
    hrest [] xs a s rfl hs
  intro done rest
  induction rest generalizing done with
  | nil =>
    rintro a s hxs hs
    rw [List.append_nil] at hxs
    rw [hxs]
    exact hs
  | cons b rest ih =>
    intro a s hxs hs
    rw [List.foldlM_cons, wp_bind]
    refine wp_mono (h done b rest a s hxs hs) (fun a' s' hs' => ?_) fun _ _ he => he
    exact ih (done ++ [b]) a' s' (by rw [hxs, List.append_assoc]; rfl) hs'

end Rules

/-! ### Tracks -/

/-- What is said of a program step by step. -/
structure Track (ε σ : Type) where
  ok : σ → σ → Prop
  error : ε → σ → σ → Prop
  refl : ∀ s, ok s s
  trans : ∀ {s t u}, ok s t → ok t u → ok s u
  trans_error : ∀ {e s t u}, ok s t → error e t u → error e s u

namespace Track

variable (T : Track ε σ)

/-- From every state the program ends in one that the track allows. -/
def Follows (x : EStateM ε σ α) : Prop :=
  ∀ s, wp x (fun _ s' => T.ok s s') (fun e s' => T.error e s s') s

variable {T}

theorem follows_pure (a : α) : T.Follows (pure a : EStateM ε σ α) := fun s => T.refl s

theorem follows_get : T.Follows (get : EStateM ε σ σ) := fun s => T.refl s

theorem follows_throw {e : ε} (h : ∀ s, T.error e s s) : T.Follows (throw e : EStateM ε σ α) := h

theorem follows_modify {f : σ → σ} (h : ∀ s, T.ok s (f s)) : T.Follows (modify f : EStateM ε σ PUnit) := h

/-- A program that follows a track follows every wider one. -/
theorem Follows.mono {T' : Track ε σ} {x : EStateM ε σ α} (hx : T.Follows x)
    (hok : ∀ s t, T.ok s t → T'.ok s t) (herror : ∀ e s t, T.error e s t → T'.error e s t) :
    T'.Follows x :=
  fun s => wp_mono (hx s) (fun _ => hok s) (fun e => herror e s)

/-- What is known after a first part, carried through the second. -/
theorem wp_trans {x : EStateM ε σ α} {s t : σ} (h : T.ok s t)
    (hx : wp x (fun _ u => T.ok t u) (fun e u => T.error e t u) t) :
    wp x (fun _ u => T.ok s u) (fun e u => T.error e s u) t :=
  wp_mono hx (fun _ _ hu => T.trans h hu) (fun _ _ hu => T.trans_error h hu)

theorem Follows.bind {x : EStateM ε σ α} {f : α → EStateM ε σ β} (hx : T.Follows x)
    (hf : ∀ a, T.Follows (f a)) : T.Follows (x >>= f) := by
  intro s
  rw [wp_bind]
  refine wp_mono (hx s) ?_ (fun _ _ he => he)
  intro a t ht
  exact wp_trans ht (hf a t)

theorem Follows.map {x : EStateM ε σ α} (hx : T.Follows x) (f : α → β) : T.Follows (f <$> x) := by
  intro s
  rw [wp_map]
  exact hx s

theorem Follows.ite {c : Prop} [Decidable c] {x y : EStateM ε σ α} (hx : c → T.Follows x)
    (hy : ¬ c → T.Follows y) : T.Follows (if c then x else y) := by
  by_cases h : c
  · rw [if_pos h]; exact hx h
  · rw [if_neg h]; exact hy h

theorem Follows.forM {xs : List β} {f : β → EStateM ε σ PUnit} (hf : ∀ b ∈ xs, T.Follows (f b)) :
    T.Follows (xs.forM f) := by
  induction xs with
  | nil => exact follows_pure _
  | cons b xs ih =>
    exact (hf b (List.mem_cons_self ..)).bind fun _ => ih fun c hc => hf c (List.mem_cons_of_mem _ hc)

end Track

/-! ### Programs that agree -/

/-- From `s` the two programs do the same, and `I` holds after them if they return. -/
def AgreeAt (I : σ → Prop) (x y : EStateM ε σ α) (s : σ) : Prop := x s = y s ∧ wp x (fun _ => I) (fun _ _ => True) s

/-- The programs agree from every state with `I`. -/
def Agree (I : σ → Prop) (x y : EStateM ε σ α) : Prop := ∀ s, I s → AgreeAt I x y s

section Agreement

variable {I : σ → Prop} {s : σ}

theorem agree_self {x : EStateM ε σ α} (h : ∀ s, I s → wp x (fun _ => I) (fun _ _ => True) s) : Agree I x x :=
  fun s hs => ⟨rfl, h s hs⟩

theorem agreeAt_pure (a : α) (hs : I s) : AgreeAt I (pure a : EStateM ε σ α) (pure a) s := ⟨rfl, hs⟩

theorem agree_pure (a : α) : Agree I (pure a : EStateM ε σ α) (pure a) := fun _ => agreeAt_pure a

theorem agreeAt_throw (e : ε) : AgreeAt I (throw e : EStateM ε σ α) (throw e) s := ⟨rfl, trivial⟩

theorem AgreeAt.mono {J : σ → Prop} {x y : EStateM ε σ α} (h : AgreeAt I x y s) (hIJ : ∀ t, I t → J t) :
    AgreeAt J x y s :=
  ⟨h.1, wp_mono h.2 (fun _ => hIJ) fun _ _ h => h⟩

/-- The first parts agree, and so do the second ones from where the first have ended. -/
theorem AgreeAt.bind {x y : EStateM ε σ β} {f g : β → EStateM ε σ α} (hx : AgreeAt I x y s)
    (hf : ∀ b, Agree I (f b) (g b)) : AgreeAt I (x >>= f) (y >>= g) s := by
  obtain ⟨hsame, hkeep⟩ := hx
  unfold wp at hkeep
  cases hxs : x s with
  | ok b t =>
    rw [hxs] at hkeep hsame
    obtain ⟨htail, htailKeep⟩ := hf b t hkeep
    refine ⟨by rw [bind_of_ok hxs, bind_of_ok hsame.symm, htail], ?_⟩
    rw [wp_bind, wp_ok hxs]
    exact htailKeep
  | error e t =>
    rw [hxs] at hsame
    refine ⟨by rw [bind_of_error hxs, bind_of_error hsame.symm], ?_⟩
    rw [wp_bind, wp_error hxs]
    trivial

/-- The first parts are known to return. -/
theorem AgreeAt.of_ok {x y : EStateM ε σ β} {f g : β → EStateM ε σ α} {b : β} {t : σ} (hx : x s = .ok b t)
    (hy : y s = .ok b t) (hf : AgreeAt I (f b) (g b) t) : AgreeAt I (x >>= f) (y >>= g) s := by
  refine ⟨by rw [bind_of_ok hx, bind_of_ok hy, hf.1], ?_⟩
  rw [wp_bind, wp_ok hx]
  exact hf.2

/-- The first part is the same, and the second parts agree from where it ends. -/
theorem AgreeAt.of_wp {x : EStateM ε σ β} {f g : β → EStateM ε σ α} {Q : β → σ → Prop}
    (hx : wp x Q (fun _ _ => True) s) (hf : ∀ b t, Q b t → AgreeAt I (f b) (g b) t) :
    AgreeAt I (x >>= f) (x >>= g) s := by
  unfold wp at hx
  cases hxs : x s with
  | ok b t =>
    rw [hxs] at hx
    exact AgreeAt.of_ok hxs hxs (hf b t hx)
  | error e t =>
    refine ⟨by rw [bind_of_error hxs, bind_of_error hxs], ?_⟩
    rw [wp_bind, wp_error hxs]
    trivial

theorem AgreeAt.ite {c : Prop} [Decidable c] {x x' y y' : EStateM ε σ α} (hx : c → AgreeAt I x x' s)
    (hy : ¬ c → AgreeAt I y y' s) : AgreeAt I (if c then x else y) (if c then x' else y') s := by
  by_cases h : c
  · rw [if_pos h, if_pos h]; exact hx h
  · rw [if_neg h, if_neg h]; exact hy h

theorem Agree.bind {x y : EStateM ε σ β} {f g : β → EStateM ε σ α} (hx : Agree I x y)
    (hf : ∀ b, Agree I (f b) (g b)) : Agree I (x >>= f) (y >>= g) :=
  fun s hs => (hx s hs).bind hf

theorem Agree.map {x y : EStateM ε σ β} (hx : Agree I x y) (f : β → α) : Agree I (f <$> x) (f <$> y) := by
  intro s hs
  obtain ⟨hsame, hkeep⟩ := hx s hs
  refine ⟨?_, (wp_map x f).2 hkeep⟩
  show EStateM.map f x s = EStateM.map f y s
  rw [EStateM.map, EStateM.map, hsame]

/-- What is read first is the state. -/
theorem agree_get {f g : σ → EStateM ε σ α} (h : ∀ s, I s → AgreeAt I (f s) (g s) s) :
    Agree I (get >>= f) (get >>= g) :=
  fun s hs => AgreeAt.of_ok rfl rfl (h s hs)

theorem Agree.ite {c : Prop} [Decidable c] {x x' y y' : EStateM ε σ α} (hx : c → Agree I x x')
    (hy : ¬ c → Agree I y y') : Agree I (if c then x else y) (if c then x' else y') :=
  fun s hs => AgreeAt.ite (fun h => hx h s hs) fun h => hy h s hs

theorem Agree.forM {xs : List β} {f g : β → EStateM ε σ PUnit} (hf : ∀ b ∈ xs, Agree I (f b) (g b)) :
    Agree I (xs.forM f) (xs.forM g) := by
  induction xs with
  | nil => exact agree_pure _
  | cons b xs ih =>
    exact (hf b (List.mem_cons_self ..)).bind fun _ => ih fun c hc => hf c (List.mem_cons_of_mem _ hc)

end Agreement

end Raising
