import Mathlib

/-!
# Clocks

What the queue of timers uses of a clock (`Time_Traits`), and how it computes for how long the
reactor may sleep (`to_usec` in `detail/timer_queue.hpp`).  `nanosecondClock` is the adapter of
`detail/chrono_time_traits.hpp` for a clock that counts nanoseconds in 64 bits.

The main result is `Clock.Measures.toUsec_le`: the reactor does not sleep longer than the time that
is left, or than one microsecond if less is left.  It holds of every clock that measures time, and
`measures_nanosecondClock` says that the adapter does, although it saturates.
-/

namespace AsioStudy

namespace Asio

/-- What the queue uses of a clock. -/
structure Clock (T : Type*) where
  /-- The time `time_type()`. -/
  epoch : T
  /-- `ticks()` of the duration between two times, `to_posix_duration(subtract(t1, t2))`. -/
  ticks : T → T → ℤ
  /-- `total_microseconds()` of this duration. -/
  totalMicroseconds : T → T → ℤ

section Clock

variable {T : Type*} {clock : Clock T}

/-- Convert the duration from `now` to a time into microseconds, `to_usec`. -/
def Clock.toUsec (clock : Clock T) (time now : T) (maxDuration : ℤ) : ℤ :=
  if clock.ticks time now ≤ 0 then 0
  else
    let usec := clock.totalMicroseconds time now
    if usec = 0 then 1
    else if maxDuration < usec then maxDuration
    else usec

/-- The clock measures time, which `μ` gives in microseconds: a duration has no ticks if it ends
before it begins, and a duration that does not has at most the microseconds that have passed. -/
structure Clock.Measures [LinearOrder T] (clock : Clock T) (μ : T → ℚ) : Prop where
  monotone : Monotone μ
  ticks_nonpos : ∀ {t u : T}, t ≤ u → clock.ticks t u ≤ 0
  totalMicroseconds_le : ∀ {t u : T}, u ≤ t → (clock.totalMicroseconds t u : ℚ) ≤ μ t - μ u

/-- The reactor never sleeps longer than it is allowed to. -/
lemma Clock.toUsec_le_max (clock : Clock T) (time now : T) {maxDuration : ℤ}
    (hmax : 1 ≤ maxDuration) : clock.toUsec time now maxDuration ≤ maxDuration := by
  simp only [Clock.toUsec]
  split_ifs with hticks husec hlt
  · omega
  · exact hmax
  · exact le_refl _
  · exact not_lt.mp hlt

variable [LinearOrder T] {μ : T → ℚ} {time d now : T}

/-- The reactor does not sleep when the time has been reached. -/
lemma Clock.Measures.toUsec_eq_zero (h : clock.Measures μ) (htime : time ≤ now)
    (maxDuration : ℤ) : clock.toUsec time now maxDuration = 0 :=
  if_pos (h.ticks_nonpos htime)

/-- **The reactor does not sleep too long.**  It sleeps at most until any later time, or for a
microsecond. -/
theorem Clock.Measures.toUsec_le (h : clock.Measures μ) (hd : time ≤ d) (maxDuration : ℤ) :
    (clock.toUsec time now maxDuration : ℚ) ≤ max (μ d - μ now) 1 := by
  simp only [Clock.toUsec]
  split_ifs with hticks husec hlt
  · exact le_max_of_le_right (by norm_num)
  · exact le_max_of_le_right (by norm_num)
  · have hnow : now ≤ time := le_of_not_ge fun hle => hticks (h.ticks_nonpos hle)
    have hmax : (maxDuration : ℚ) ≤ clock.totalMicroseconds time now := Int.cast_le.mpr hlt.le
    have husec := h.totalMicroseconds_le hnow
    have hmono := h.monotone hd
    exact le_max_of_le_left (by linarith)
  · have hnow : now ≤ time := le_of_not_ge fun hle => hticks (h.ticks_nonpos hle)
    have husec := h.totalMicroseconds_le hnow
    have hmono := h.monotone hd
    exact le_max_of_le_left (by linarith)

end Clock

/-! ## The clocks of the standard library -/

/-- The smallest count, `(duration::min)()`. -/
def minTicks : ℤ := -2 ^ 63

/-- The largest count, `(duration::max)()`. -/
def maxTicks : ℤ := 2 ^ 63 - 1

/-- A time since the epoch, as a count in 64 bits. -/
abbrev Ticks := {n : ℤ // minTicks ≤ n ∧ n ≤ maxTicks}

/-- Subtract one time from another, `subtract`. -/
def subtract (t1 t2 : Ticks) : ℤ :=
  if t1.1 ≥ 0 then
    if t2.1 ≥ 0 then t1.1 - t2.1
    else if t2.1 = minTicks then maxTicks
    else if maxTicks - t1.1 < 0 - t2.1 then maxTicks
    else t1.1 - t2.1
  else
    if t2.1 < 0 then t1.1 - t2.1
    else if t1.1 = minTicks then minTicks
    else if maxTicks - t2.1 < 0 - t1.1 then minTicks
    else -(t2.1 - t1.1)

/-- `subtract` is the difference, if this is a count, and the next count otherwise. -/
lemma subtract_eq (t1 t2 : Ticks) : subtract t1 t2 = max minTicks (min maxTicks (t1.1 - t2.1)) := by
  obtain ⟨a, ha⟩ := t1
  obtain ⟨b, hb⟩ := t2
  unfold minTicks maxTicks at *
  simp only [subtract, minTicks, maxTicks]
  split_ifs <;> omega

/-- A count of a clock with the given period in units of `Num / Den` seconds, `duration_cast`.  The
products are those of integers; with the period below there are none. -/
def durationCast (periodNum periodDen num den : ℕ) (ticks : ℤ) : ℤ :=
  let num1 := periodNum / periodNum.gcd num
  let num2 := num / periodNum.gcd num
  let den1 := periodDen / periodDen.gcd den
  let den2 := den / periodDen.gcd den
  let n := num1 * den2
  let d := num2 * den1
  if n = 1 ∧ d = 1 then ticks
  else if n ≠ 1 ∧ d = 1 then ticks * n
  else if n = 1 ∧ periodDen ≠ 1 then ticks.tdiv d
  else (ticks * n).tdiv d

/-- `chrono_time_traits` of a clock whose period is a nanosecond. -/
def nanosecondClock : Clock Ticks where
  epoch := ⟨0, by decide⟩
  ticks := subtract
  totalMicroseconds t u := durationCast 1 1000000000 1 1000000 (subtract t u)

/-- A microsecond has a thousand nanoseconds. -/
lemma durationCast_nanoseconds (ticks : ℤ) :
    durationCast 1 1000000000 1 1000000 ticks = ticks.tdiv 1000 := by
  norm_num [durationCast]

/-- A number of nanoseconds in microseconds. -/
def microseconds (t : Ticks) : ℚ := t.1 / 1000

/-- The clock measures time, whatever the times are. -/
theorem measures_nanosecondClock : nanosecondClock.Measures microseconds where
  monotone t u htu := by
    have hcast : (t.1 : ℚ) ≤ u.1 := Int.cast_le.mpr htu
    exact div_le_div_of_nonneg_right hcast (by norm_num)
  ticks_nonpos {t u} htu := by
    have hle : t.1 ≤ u.1 := htu
    change subtract t u ≤ 0
    simp only [subtract_eq, minTicks, maxTicks]
    omega
  totalMicroseconds_le {t u} hut := by
    have hle : u.1 ≤ t.1 := hut
    have husec : (subtract t u).tdiv 1000 * 1000 ≤ t.1 - u.1 := by
      have hnonneg : 0 ≤ subtract t u := by
        simp only [subtract_eq, minTicks, maxTicks]
        omega
      have hdiff : subtract t u ≤ t.1 - u.1 := by
        simp only [subtract_eq, minTicks, maxTicks]
        omega
      rw [Int.tdiv_eq_ediv_of_nonneg hnonneg]
      exact (Int.ediv_mul_le _ (by norm_num)).trans hdiff
    have hcast : (((subtract t u).tdiv 1000 * 1000 : ℤ) : ℚ) ≤ ((t.1 - u.1 : ℤ) : ℚ) :=
      Int.cast_le.mpr husec
    change ((durationCast 1 1000000000 1 1000000 (subtract t u) : ℤ) : ℚ) ≤ t.1 / 1000 - u.1 / 1000
    rw [durationCast_nanoseconds]
    push_cast at hcast
    linarith

end Asio

end AsioStudy
