import Slam.Timer.Termination

/-!
# How long the worker waits

Between two turns `slam_runnable_run` waits in `epoll_wait` for at most `slam_timer_list_min_interval`
milliseconds. On its way there the interval is a `uint64_t`, an `int64_t` and, as the argument of
`slam_poll_wait`, an `int`; `epoll_wait` takes -1 for a wait without end.

`waitsInTime_iff`: the wait ends in time exactly if the list is empty, or the earliest timer is not due
yet and the interval survives the conversion to `int` with its sign.
-/

namespace Slam

/-- The values of an `int64_t`. -/
def int64 (n : ℤ) : ℤ := n.bmod (2 ^ 64)

/-- The values of an `int`. -/
def int32 (n : ℤ) : ℤ := n.bmod (2 ^ 32)

variable {C : Type*}

/-- `slam_timer_list_min_interval`. Both branches of the conditional are of type `uint64_t`. -/
def timerListMinInterval (ts : List (Timer C)) (now : ℕ) : ℤ :=
  match ts with
  | [] => int64 (uint64 (-1))
  | t :: _ => int64 (if now < t.expireTime then uint64 (t.expireTime - now) else uint64 (-1))

/-- The timeout that `slam_runnable_run` passes to `slam_poll_wait`, and that to `epoll_wait`. -/
def pollTimeout (ts : List (Timer C)) (now : ℕ) : ℤ := int32 (timerListMinInterval ts now)

/-- The wait is without end exactly if there is no timer, and otherwise it ends by the earliest expiry time. -/
def WaitsInTime (ts : List (Timer C)) (now : ℕ) : Prop :=
  (pollTimeout ts now = -1 ↔ ts = []) ∧
    ∀ earliest, (ts.map Timer.expireTime).min? = some earliest →
      0 ≤ pollTimeout ts now ∧ pollTimeout ts now ≤ max 0 ((earliest : ℤ) - now)

/-- The earliest timer is not due, and its distance is not negative as an `int`. -/
def InRange (ts : List (Timer C)) (now : ℕ) : Prop :=
  ∀ t, ts.head? = some t → now < t.expireTime ∧ (t.expireTime - now) % 2 ^ 32 < 2 ^ 31

/-! ### The conversions -/

theorem int32_int64_uint64 (n : ℤ) : int32 (int64 (uint64 n)) = int32 n := by
  have huint : ((uint64 n : ℕ) : ℤ) = n % 2 ^ 64 := Int.toNat_of_nonneg (Int.emod_nonneg _ (by norm_num))
  have hint : int64 (uint64 n) = int64 n := by
    rw [int64, huint]
    exact Int.emod_bmod n (2 ^ 64)
  rw [hint, int32, int64, Int.bmod_bmod_of_dvd (by norm_num)]
  rfl

theorem int32_nonneg_iff (d : ℕ) : 0 ≤ int32 d ↔ d % 2 ^ 32 < 2 ^ 31 := by
  rw [int32, Int.bmod_def]
  split <;> omega

theorem int32_le {d : ℕ} (h : d % 2 ^ 32 < 2 ^ 31) : int32 d ≤ d := by
  rw [int32, Int.bmod_def]
  split <;> omega

theorem pollTimeout_nil (now : ℕ) : pollTimeout ([] : List (Timer C)) now = -1 := by
  rw [pollTimeout, timerListMinInterval, int32_int64_uint64]
  rfl

theorem pollTimeout_due {t : Timer C} (ts : List (Timer C)) {now : ℕ} (h : t.expireTime ≤ now) :
    pollTimeout (t :: ts) now = -1 := by
  rw [pollTimeout, timerListMinInterval, if_neg (not_lt.2 h), int32_int64_uint64]
  rfl

theorem pollTimeout_of_lt {t : Timer C} (ts : List (Timer C)) {now : ℕ} (h : now < t.expireTime) :
    pollTimeout (t :: ts) now = int32 (t.expireTime - now : ℕ) := by
  rw [pollTimeout, timerListMinInterval, if_pos h, int32_int64_uint64, Nat.cast_sub h.le]

/-! ### The wait -/

theorem min?_expireTime {t : Timer C} {ts : List (Timer C)}
    (h : (t :: ts).Pairwise fun t u => t.expireTime ≤ u.expireTime) :
    ((t :: ts).map Timer.expireTime).min? = some t.expireTime := by
  refine List.min?_eq_some_iff.2 ⟨List.mem_cons_self .., fun n hn => ?_⟩
  obtain ⟨u, hu, rfl⟩ := List.mem_map.1 hn
  rcases List.mem_cons.1 hu with rfl | hu
  · exact le_rfl
  · exact (List.pairwise_cons.1 h).1 u hu

/-- **When the worker does not sleep past a timer.** For every list in the order of expiry times and every current
time, the wait is without end exactly if the list is empty and ends by the earliest expiry time otherwise, if and
only if the list is empty or its head is not due and its distance is not negative as an `int`. -/
theorem waitsInTime_iff {ts : List (Timer C)} (hsorted : ts.Pairwise fun t u => t.expireTime ≤ u.expireTime) (now : ℕ) :
    WaitsInTime ts now ↔ InRange ts now := by
  cases ts with
  | nil => exact ⟨fun _ => nofun, fun _ => ⟨iff_of_true (pollTimeout_nil now) rfl, nofun⟩⟩
  | cons t ts =>
    have hmin := min?_expireTime hsorted
    constructor
    · rintro ⟨-, hwait⟩ u hu
      cases hu
      obtain ⟨hnonneg, -⟩ := hwait _ hmin
      by_cases hdue : now < t.expireTime
      · rw [pollTimeout_of_lt ts hdue] at hnonneg
        exact ⟨hdue, (int32_nonneg_iff _).1 hnonneg⟩
      · rw [pollTimeout_due ts (not_lt.1 hdue)] at hnonneg
        exact absurd hnonneg (by norm_num)
    · intro hrange
      obtain ⟨hdue, hshort⟩ := hrange t rfl
      have hnonneg := (int32_nonneg_iff _).2 hshort
      have hle := int32_le hshort
      rw [WaitsInTime, pollTimeout_of_lt ts hdue]
      refine ⟨⟨fun h => by omega, nofun⟩, fun earliest hearliest => ⟨hnonneg, ?_⟩⟩
      rw [hmin] at hearliest
      cases hearliest
      rw [← Nat.cast_sub hdue.le]
      exact hle.trans (le_max_right _ _)

/-- A timer that is due in ten milliseconds, and one that is due later. -/
theorem waitsInTime_tenMilliseconds :
    let ts : List (Timer Unit) := [⟨0, 10, 110, false, 1, ()⟩, ⟨1, 100, 200, true, 2, ()⟩]
    InRange ts 100 ∧ WaitsInTime ts 100 := by
  intro ts
  have hrange : InRange ts 100 := by
    rintro t ⟨rfl⟩
    norm_num
  exact ⟨hrange, (waitsInTime_iff (by simp [ts]) 100).2 hrange⟩

/-- A timer that has become due before the wait is computed is slept past without end, and so is one that is due
in 2 ^ 32 - 1 milliseconds. -/
theorem sleeps_past_due :
    let late : List (Timer Unit) := [⟨0, 10, 110, false, 1, ()⟩]
    let far : List (Timer Unit) := [⟨0, 2 ^ 32 - 1, 2 ^ 32, false, 1, ()⟩]
    (pollTimeout late 111 = -1 ∧ ¬ WaitsInTime late 111) ∧ pollTimeout far 1 = -1 ∧ ¬ WaitsInTime far 1 := by
  intro late far
  have hlate : pollTimeout late 111 = -1 := pollTimeout_due [] (by norm_num)
  have hfar : pollTimeout far 1 = -1 := by
    rw [pollTimeout_of_lt [] (by norm_num)]
    rfl
  exact ⟨⟨hlate, fun h => nomatch h.1.1 hlate⟩, hfar, fun h => nomatch h.1.1 hfar⟩

end Slam
