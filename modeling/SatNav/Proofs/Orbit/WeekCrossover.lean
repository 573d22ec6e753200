import SatNav.Proofs.Orbit.Velocity

/-!
# Satellites across the end of a week

Times are counted from the beginning of a week, and those of a signal and of an ephemeris
may be counted in different weeks. `withinHalfWeek` undoes this for differences of up to
one and a half weeks: it moves them by a whole number of weeks to at most half a week.

The time enters the state of a satellite through two such differences only, which is
`state_congr`. So an ephemeris that `IsCurrentAt` a time gives the same state in whichever
week that time is counted.
-/

namespace SatNav

open Exact

/-! ### Time differences -/

/-- A difference of less than half a week is found again from another week. -/
theorem withinHalfWeek_add_weeks {d : ℝ} (h : |d| < 302400) {weeks : ℤ} (hweeks : |weeks| ≤ 1) :
    withinHalfWeek (d + weeks * 604800) = d := by
  obtain ⟨hlow, hhigh⟩ := abs_lt.mp h
  rw [withinHalfWeek_real]
  rcases Int.abs_le_one_iff.mp hweeks with rfl | rfl | rfl
  · rw [Int.cast_zero, zero_mul, add_zero, if_neg (not_lt.mpr hhigh.le),
      if_neg (not_lt.mpr hlow.le)]
  · rw [Int.cast_one, one_mul, if_pos (by linarith), add_sub_cancel_right]
  · rw [Int.cast_neg, Int.cast_one, neg_one_mul, if_neg (by linarith), if_pos (by linarith),
      neg_add_cancel_right]

/-- The interval between two times, less than half a week apart, does not depend on the week in
which the first of them is counted. -/
theorem withinHalfWeek_sub_congr {t reference : ℝ} (h : |t - reference| < 302400) {weeks : ℤ}
    (hweeks : |weeks| ≤ 1) :
    withinHalfWeek (t + weeks * 604800 - reference) = withinHalfWeek (t - reference) := by
  have hzero : |(0 : ℤ)| ≤ 1 := by norm_num
  have hsame := withinHalfWeek_add_weeks h hzero
  rw [Int.cast_zero, zero_mul, add_zero] at hsame
  rw [add_sub_right_comm, withinHalfWeek_add_weeks h hweeks, hsame]

theorem abs_withinHalfWeek_le {d : ℝ} (h : |d| ≤ 907200) : |withinHalfWeek d| ≤ 302400 := by
  obtain ⟨hlow, hhigh⟩ := abs_le.mp h
  rw [withinHalfWeek_real, abs_le]
  split_ifs with hlate hearly
  · constructor <;> linarith
  · constructor <;> linarith
  · exact ⟨not_lt.mp hearly, not_lt.mp hlate⟩

theorem exists_withinHalfWeek_eq (d : ℝ) :
    ∃ weeks : ℤ, withinHalfWeek d = d + weeks * 604800 := by
  rw [withinHalfWeek_real]
  split_ifs
  · exact ⟨-1, by push_cast; ring⟩
  · exact ⟨1, by push_cast; ring⟩
  · exact ⟨0, by push_cast; ring⟩

namespace BroadcastEphemeris

/-- Both reference times of an ephemeris are less than half a week away from `t`. -/
structure IsCurrentAt (eph : BroadcastEphemeris ℝ) (t : ℝ) : Prop where
  orbit : |t - eph.orbitTime| < 302400
  clock : |t - eph.clockTime| < 302400

variable {eph : BroadcastEphemeris ℝ} {s t : ℝ}

theorem clockPolynomial_congr (h : eph.clockInterval s = eph.clockInterval t) :
    eph.clockPolynomial s = eph.clockPolynomial t := by
  rw [clockPolynomial, clockPolynomial, h]

/-- The time enters the orbit and the clock through their intervals only. -/
theorem state_congr (horbit : eph.orbitInterval s = eph.orbitInterval t)
    (hclock : eph.clockInterval s = eph.clockInterval t) : eph.state s = eph.state t := by
  simp only [state, stateOf, meanAnomalyAt, tilt, longitude, horbit, hclock,
    clockPolynomial_congr hclock]

variable {weeks : ℤ}

theorem clockPolynomial_add_weeks (h : |t - eph.clockTime| < 302400) (hweeks : |weeks| ≤ 1) :
    eph.clockPolynomial (t + weeks * 604800) = eph.clockPolynomial t :=
  clockPolynomial_congr (withinHalfWeek_sub_congr h hweeks)

/-- A time has the same state of the satellite when it is counted in the week before or after. -/
theorem IsCurrentAt.state_add_weeks (h : eph.IsCurrentAt t) (hweeks : |weeks| ≤ 1) :
    eph.state (t + weeks * 604800) = eph.state t :=
  state_congr (withinHalfWeek_sub_congr h.orbit hweeks) (withinHalfWeek_sub_congr h.clock hweeks)

end BroadcastEphemeris

end SatNav
