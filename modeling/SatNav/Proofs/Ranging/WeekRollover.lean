import SatNav.Proofs.Ranging.Pseudorange

/-!
# Ranges at the end of a week

A time of transmission is counted from the beginning of the satellite's week, and the mean
of the times is taken of these counts as they are. `AgreeWithinWeek` says of some times
that they belong to one epoch: up to whole weeks they are within a tenth of a second of
one another. `ranges_agree_or_straddle` is what becomes of the ranges. As long as all
channels count the same week they stay within a tenth of a light second of `rangeOffset`;
once some have begun a new week and others have not, a range is off by about half a light
week.
-/

namespace SatNav

open Exact

variable {n : ℕ}

/-- Up to whole weeks, the times are within a tenth of a second of one another. -/
def AgreeWithinWeek (times : Fin n → ℝ) : Prop :=
  ∀ i j, ∃ weeks : ℤ, |times i - times j - weeks * 604800| ≤ 0.1

theorem speedOfLight_pos : (0 : ℝ) < speedOfLight := by
  norm_num [speedOfLight]

/-- Times of one epoch are close together, or about a week apart. -/
theorem AgreeWithinWeek.near_or_far {times : Fin n → ℝ} (h : AgreeWithinWeek times)
    (i j : Fin n) : |times i - times j| ≤ 0.1 ∨ 604799.9 ≤ |times i - times j| := by
  obtain ⟨weeks, hweeks⟩ := h i j
  rcases eq_or_ne weeks 0 with rfl | hne
  · left
    simpa using hweeks
  · right
    have hone : (1 : ℝ) ≤ |(weeks : ℝ)| := by exact_mod_cast Int.one_le_abs hne
    have hweek : |(weeks : ℝ) * 604800| = |(weeks : ℝ)| * 604800 := by
      rw [abs_mul, abs_of_pos (by norm_num : (0 : ℝ) < 604800)]
    have htriangle := abs_sub_abs_le_abs_sub ((weeks : ℝ) * 604800) (times i - times j)
    rw [abs_sub_comm ((weeks : ℝ) * 604800), hweek] at htriangle
    linarith

/-- A mean is as close to each time as the times are to one another. -/
theorem abs_meanTime_sub_le {times : Fin n → ℝ} {tolerance : ℝ} (i : Fin n)
    (h : ∀ j, |times j - times i| ≤ tolerance) :
    |meanTime (List.ofFn times) - times i| ≤ tolerance := by
  have hn : (0 : ℝ) < n := by exact_mod_cast i.pos
  have hmean : meanTime (List.ofFn times) - times i = (∑ j, (times j - times i)) / n := by
    rw [meanTime_ofFn, Finset.sum_sub_distrib, Finset.sum_const, Finset.card_univ,
      Fintype.card_fin, nsmul_eq_mul]
    field_simp
  have hsum : |∑ j, (times j - times i)| ≤ n * tolerance :=
    calc |∑ j, (times j - times i)| ≤ ∑ j, |times j - times i| := Finset.abs_sum_le_sum_abs _ _
      _ ≤ ∑ _j : Fin n, tolerance := Finset.sum_le_sum fun j _ => h j
      _ = n * tolerance := by
        rw [Finset.sum_const, Finset.card_univ, Fintype.card_fin, nsmul_eq_mul]
  rw [hmean, abs_div, abs_of_pos hn, div_le_iff₀ hn]
  linarith

/-- How far a range without its clock term is from `rangeOffset`. -/
theorem abs_range_sub_clock_sub (epoch : ℝ) (channels : Fin n → ChannelSnapshot ℝ)
    (satellites : Fin n → Trajectory ℝ) (i : Fin n) :
    |(measurementAt epoch channels satellites i).range -
        clockErrorAt epoch channels satellites i * speedOfLight - rangeOffset| =
      |meanTime (List.ofFn fun j => (channels j).transmissionTime epoch) -
        (channels i).transmissionTime epoch| * speedOfLight := by
  rw [range_sub_clock, add_sub_cancel_left, abs_mul, abs_of_pos speedOfLight_pos]

/-- Of two times that are far apart one is far from the mean. -/
theorem exists_far_from_meanTime {times : Fin n → ℝ} {i j : Fin n} {distance : ℝ}
    (h : 2 * distance ≤ |times i - times j|) :
    ∃ k, distance ≤ |meanTime (List.ofFn times) - times k| := by
  by_contra hnear
  push Not at hnear
  have htriangle := abs_sub_le (times i) (meanTime (List.ofFn times)) (times j)
  have hi := hnear i
  have hj := hnear j
  rw [abs_sub_comm] at hi
  linarith

/-- Channels of one epoch have ranges within a tenth of a light second of `rangeOffset`, up to their
clock terms, exactly if their times of transmission are counted from the beginning of one week. If
not, some range is more than 302399 light seconds away from it. -/
theorem ranges_agree_or_straddle (hn : 0 < n) (epoch : ℝ) (channels : Fin n → ChannelSnapshot ℝ)
    (satellites : Fin n → Trajectory ℝ)
    (hagree : AgreeWithinWeek fun i => (channels i).transmissionTime epoch) :
    ∃ out : Fin n → RangeMeasurement ℝ,
      measureRanges epoch (List.ofFn channels) (List.ofFn satellites) = .ok (List.ofFn out) ∧
      let time i := (channels i).transmissionTime epoch
      let deviation i :=
        |(out i).range - (satellites i (time i)).clockError * speedOfLight - rangeOffset|
      ((∀ i, deviation i ≤ 0.1 * speedOfLight) ↔ ∀ i j, |time i - time j| ≤ 0.1) ∧
      ((∃ i j, 0.1 < |time i - time j|) → ∃ k, 302399 * speedOfLight < deviation k) := by
  refine ⟨measurementAt epoch channels satellites, measureRanges_ofFn hn epoch channels satellites,
    ?_⟩
  intro time deviation
  have hdeviation (i : Fin n) :
      deviation i = |meanTime (List.ofFn time) - time i| * speedOfLight :=
    abs_range_sub_clock_sub epoch channels satellites i
  have hstraddle : (∃ i j, 0.1 < |time i - time j|) →
      ∃ k, 302399 * speedOfLight < deviation k := by
    rintro ⟨i, j, hij⟩
    have hfar := (hagree.near_or_far i j).resolve_left (not_le.mpr hij)
    have hfar' : 2 * 302399.95 ≤ |time i - time j| := le_trans (by norm_num) hfar
    obtain ⟨k, hk⟩ := exists_far_from_meanTime hfar'
    refine ⟨k, ?_⟩
    rw [hdeviation]
    exact mul_lt_mul_of_pos_right (lt_of_lt_of_le (by norm_num) hk) speedOfLight_pos
  refine ⟨⟨?_, ?_⟩, hstraddle⟩
  · intro hclose i j
    by_contra hij
    obtain ⟨k, hk⟩ := hstraddle ⟨i, j, not_le.mp hij⟩
    have hsmall := (mul_lt_mul_iff_of_pos_right speedOfLight_pos).mp (hk.trans_le (hclose k))
    norm_num at hsmall
  · intro hclose i
    rw [hdeviation]
    exact mul_le_mul_of_nonneg_right (abs_meanTime_sub_le i fun j => hclose j i)
      speedOfLight_pos.le

/-! ### A millisecond across the end of the week -/

/-- The signal of the first channel left in the last millisecond of a week, that of the second one
at the beginning of the next. -/
noncomputable def overWeekEnd : Fin 2 → ChannelSnapshot ℝ :=
  ![⟨0, 604799999, 0, 1023000, 0, 0⟩, ⟨0, 0, 0, 1023000, 0, 0⟩]

/-- Two satellites that stand still, with clocks that are right. -/
noncomputable def standingStill : Fin 2 → Trajectory ℝ :=
  fun _ _ => ⟨⟨26000000, 0, 0⟩, ⟨0, 0, 0⟩, 0, 0⟩

theorem transmissionTime_overWeekEnd :
    (fun i => (overWeekEnd i).transmissionTime 0) = ![604799.999, 0] := by
  have hlast : UInt32.toNat 604799999 = 604799999 := rfl
  funext i
  fin_cases i <;> norm_num [overWeekEnd, ChannelSnapshot.transmissionTime, hlast]

theorem agreeWithinWeek_overWeekEnd :
    AgreeWithinWeek fun i => (overWeekEnd i).transmissionTime 0 := by
  rw [transmissionTime_overWeekEnd]
  intro i j
  refine ⟨(j : ℤ) - i, ?_⟩
  fin_cases i <;> fin_cases j <;> norm_num [abs_of_neg]

/-- The ranges over the end of a week are not those of one epoch. -/
theorem ranges_straddle_overWeekEnd :
    0 < 2 ∧ AgreeWithinWeek (fun i => (overWeekEnd i).transmissionTime 0) ∧
      ∃ out : Fin 2 → RangeMeasurement ℝ,
        measureRanges 0 (List.ofFn overWeekEnd) (List.ofFn standingStill) = .ok (List.ofFn out) ∧
          ∃ k, 302399 * speedOfLight < |(out k).range - 0 * speedOfLight - rangeOffset| := by
  obtain ⟨out, hout, -, hstraddle⟩ := ranges_agree_or_straddle (by norm_num) 0 overWeekEnd
    standingStill agreeWithinWeek_overWeekEnd
  refine ⟨by norm_num, agreeWithinWeek_overWeekEnd, out, hout, hstraddle ⟨0, 1, ?_⟩⟩
  have htimes := congrFun transmissionTime_overWeekEnd
  dsimp only at htimes ⊢
  rw [htimes 0, htimes 1]
  norm_num

/-- Channels of one epoch do not always have ranges within a tenth of a light second of
`rangeOffset`. -/
theorem not_ranges_agree_overWeekEnd :
    ¬ ∀ (n : ℕ) (epoch : ℝ) (channels : Fin n → ChannelSnapshot ℝ)
      (satellites : Fin n → Trajectory ℝ), 0 < n →
      (∀ i, (channels i).timeOfWeek < 604800000) →
      AgreeWithinWeek (fun i => (channels i).transmissionTime epoch) →
      ∃ out : Fin n → RangeMeasurement ℝ,
        measureRanges epoch (List.ofFn channels) (List.ofFn satellites) = .ok (List.ofFn out) ∧
          ∀ i, |(out i).range -
            (satellites i ((channels i).transmissionTime epoch)).clockError * speedOfLight -
              rangeOffset| ≤ 0.1 * speedOfLight := by
  intro h
  have hweek (i : Fin 2) : (overWeekEnd i).timeOfWeek < 604800000 := by
    fin_cases i <;> decide
  obtain ⟨out, hout, hclose⟩ :=
    h 2 0 overWeekEnd standingStill (by norm_num) hweek agreeWithinWeek_overWeekEnd
  have hmeasured := measureRanges_ofFn (by norm_num) 0 overWeekEnd standingStill
  obtain rfl : measurementAt 0 overWeekEnd standingStill = out :=
    List.ofFn_injective (Except.ok.inj (hmeasured.symm.trans hout))
  have hnear := (abs_range_sub_clock_sub 0 overWeekEnd standingStill 1).symm.trans_le (hclose 1)
  rw [mul_le_mul_iff_of_pos_right speedOfLight_pos, congrFun transmissionTime_overWeekEnd 1,
    transmissionTime_overWeekEnd, meanTime_ofFn, Fin.sum_univ_two] at hnear
  norm_num at hnear

end SatNav
