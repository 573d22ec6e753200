import Mathlib.Algebra.BigOperators.Fin
import SatNav.Proofs.Exact.Reals
import SatNav.Ranging.Delay

/-!
# Laws of the pseudoranges

A set of `n` channels is a function of the places `0, ..., n - 1`, and so is the set of
their satellites. `measurementAt` is the measurement at a place; the mean in it is over
all places. In exact arithmetic the offsets from the mean cancel, so the ranges, less
their clock terms, have the mean `rangeOffset`, and their differences do not depend on
the mean. Nothing but the mean looks at other places than its own, so the measurements
move with their channels under any permutation, before and after a correction of their
delays.
-/

namespace SatNav

open Exact

variable {n : ℕ}

theorem zipWith_ofFn {α β γ : Type} (f : α → β → γ) (a : Fin n → α) (b : Fin n → β) :
    List.zipWith f (List.ofFn a) (List.ofFn b) = List.ofFn fun i => f (a i) (b i) := by
  apply List.ext_getElem
  · simp
  · intro i hi hi'
    simp

section Places

variable {R : Type} [Scalar R]

/-- The measurement of the channel at place `i`, by the mean over all places. -/
def measurementAt (epoch : R) (channels : Fin n → ChannelSnapshot R)
    (satellites : Fin n → Trajectory R) (i : Fin n) : RangeMeasurement R :=
  .ofState (channels i) ((channels i).transmissionTime epoch)
    (meanTime (List.ofFn fun j => (channels j).transmissionTime epoch))
    (satellites i ((channels i).transmissionTime epoch))

/-- The clock error of the satellite at place `i` when its signal left. -/
def clockErrorAt (epoch : R) (channels : Fin n → ChannelSnapshot R)
    (satellites : Fin n → Trajectory R) (i : Fin n) : R :=
  (satellites i ((channels i).transmissionTime epoch)).clockError

theorem measureRanges_ofFn (hn : 0 < n) (epoch : R) (channels : Fin n → ChannelSnapshot R)
    (satellites : Fin n → Trajectory R) :
    measureRanges epoch (List.ofFn channels) (List.ofFn satellites) =
      .ok (List.ofFn (measurementAt epoch channels satellites)) := by
  have hnonempty : (List.ofFn channels).isEmpty = false := by
    rw [List.isEmpty_eq_false_iff, ne_eq, List.ofFn_eq_nil_iff]
    exact hn.ne'
  have hlength : ¬ (List.ofFn channels).length ≠ (List.ofFn satellites).length := by simp
  rw [measureRanges, hnonempty, if_neg Bool.false_ne_true, if_neg hlength]
  simp only [zipWith_ofFn, List.map_ofFn]
  rfl

/-- What a model takes off a measurement depends on that measurement alone. -/
theorem correctDelays_ofFn (model : DelayModel R) (reference : Vec3 R)
    (measurements : Fin n → RangeMeasurement R) :
    correctDelays model reference (List.ofFn measurements) =
      List.ofFn fun i => (measurements i).correct
        (.ofModel model reference (measurements i).position) := by
  rw [correctDelays, List.map_ofFn]
  rfl

end Places

/-! ### The mean -/

theorem meanTime_real (times : List ℝ) : meanTime times = times.sum / times.length := by
  have hsum : times.foldl (· + ·) (0.0 : ℝ) = times.sum := by
    norm_num [List.sum_eq_foldl]
  rw [meanTime, Scalar.ofCount_real]
  exact congrArg (· / (times.length : ℝ)) hsum

theorem meanTime_ofFn (times : Fin n → ℝ) : meanTime (List.ofFn times) = (∑ i, times i) / n := by
  rw [meanTime_real, List.sum_ofFn, List.length_ofFn]

/-- The order of the places does not change the mean. -/
theorem meanTime_ofFn_comp (times : Fin n → ℝ) (σ : Equiv.Perm (Fin n)) :
    meanTime (List.ofFn (times ∘ σ)) = meanTime (List.ofFn times) := by
  rw [meanTime_ofFn, meanTime_ofFn, ← Equiv.sum_comp σ times]
  rfl

theorem sum_meanTime_sub (hn : 0 < n) (times : Fin n → ℝ) :
    ∑ i, (meanTime (List.ofFn times) - times i) = 0 := by
  have hn' : (n : ℝ) ≠ 0 := by exact_mod_cast hn.ne'
  rw [Finset.sum_sub_distrib, Finset.sum_const, Finset.card_univ, Fintype.card_fin, nsmul_eq_mul,
    meanTime_ofFn, mul_div_cancel₀ _ hn', sub_self]

/-! ### The ranges -/

variable (epoch : ℝ) (channels : Fin n → ChannelSnapshot ℝ) (satellites : Fin n → Trajectory ℝ)

/-- A range without its clock term is as far from `rangeOffset` as light gets between the time of
transmission and the mean. -/
theorem range_sub_clock (i : Fin n) :
    (measurementAt epoch channels satellites i).range -
        clockErrorAt epoch channels satellites i * speedOfLight =
      rangeOffset +
        (meanTime (List.ofFn fun j => (channels j).transmissionTime epoch) -
          (channels i).transmissionTime epoch) * speedOfLight := by
  simp only [measurementAt, RangeMeasurement.ofState, clockErrorAt]
  ring

theorem range_sub_range (i j : Fin n) :
    (measurementAt epoch channels satellites i).range -
        (measurementAt epoch channels satellites j).range =
      speedOfLight *
          ((channels j).transmissionTime epoch - (channels i).transmissionTime epoch) +
        speedOfLight * (clockErrorAt epoch channels satellites i -
          clockErrorAt epoch channels satellites j) := by
  linear_combination range_sub_clock epoch channels satellites i -
    range_sub_clock epoch channels satellites j

theorem mean_range_sub_clock (hn : 0 < n) :
    (∑ i, ((measurementAt epoch channels satellites i).range -
        clockErrorAt epoch channels satellites i * speedOfLight)) / n = rangeOffset := by
  have hn' : (n : ℝ) ≠ 0 := by exact_mod_cast hn.ne'
  simp only [range_sub_clock]
  rw [Finset.sum_add_distrib, ← Finset.sum_mul, sum_meanTime_sub hn, zero_mul, add_zero,
    Finset.sum_const, Finset.card_univ, Fintype.card_fin, nsmul_eq_mul, mul_div_cancel_left₀ _ hn']

theorem measurementAt_comp (σ : Equiv.Perm (Fin n)) :
    measurementAt epoch (channels ∘ σ) (satellites ∘ σ) =
      measurementAt epoch channels satellites ∘ σ := by
  funext i
  have hmean := meanTime_ofFn_comp (fun j => (channels j).transmissionTime epoch) σ
  simp only [measurementAt, Function.comp_apply]
  rw [← hmean]
  rfl

/-- Any number of channels, at least one, is measured. Each measurement stands at the place of its
channel, with the satellite as it was at that channel's own time of transmission. The ranges less
their clock terms have the mean `rangeOffset`, two ranges differ by what light covers between their
times of transmission and by their clock terms, and the measurements move with their channels. A
correction lowers each range by the delay for its own elevation and leaves the rest of the
measurement, wherever its channel has moved. -/
theorem measureRanges_laws (hn : 0 < n) :
    ∃ out : Fin n → RangeMeasurement ℝ,
      measureRanges epoch (List.ofFn channels) (List.ofFn satellites) = .ok (List.ofFn out) ∧
      let time i := (channels i).transmissionTime epoch
      let clock i := (satellites i (time i)).clockError
      (∀ i, (out i).transmission = time i ∧
        (out i).position = (satellites i (time i)).position ∧
        (out i).velocity = (satellites i (time i)).velocity) ∧
      (∑ i, ((out i).range - clock i * speedOfLight)) / n = rangeOffset ∧
      (∀ i j, (out i).range - (out j).range =
        speedOfLight * (time j - time i) + speedOfLight * (clock i - clock j)) ∧
      (∀ σ : Equiv.Perm (Fin n),
        measureRanges epoch (List.ofFn (channels ∘ σ)) (List.ofFn (satellites ∘ σ)) =
          .ok (List.ofFn (out ∘ σ))) ∧
      ∀ (model : DelayModel ℝ) (reference : Vec3 ℝ), ∃ corrected : Fin n → RangeMeasurement ℝ,
        (∀ i, corrected i = { out i with
          range := (out i).range - model (lookAngles (out i).position reference).elevation }) ∧
        ∀ σ : Equiv.Perm (Fin n),
          (measureRanges epoch (List.ofFn (channels ∘ σ)) (List.ofFn (satellites ∘ σ))).map
              (correctDelays model reference) =
            .ok (List.ofFn (corrected ∘ σ)) := by
  have hpermuted (σ : Equiv.Perm (Fin n)) :
      measureRanges epoch (List.ofFn (channels ∘ σ)) (List.ofFn (satellites ∘ σ)) =
        .ok (List.ofFn (measurementAt epoch channels satellites ∘ σ)) := by
    rw [measureRanges_ofFn hn, measurementAt_comp]
  refine ⟨measurementAt epoch channels satellites, measureRanges_ofFn hn epoch channels satellites,
    fun i => ⟨rfl, rfl, rfl⟩, mean_range_sub_clock epoch channels satellites hn,
    range_sub_range epoch channels satellites, hpermuted, ?_⟩
  intro model reference
  refine ⟨fun i => (measurementAt epoch channels satellites i).correct
    (.ofModel model reference (measurementAt epoch channels satellites i).position),
    fun i => rfl, ?_⟩
  intro σ
  rw [hpermuted, Except.map, correctDelays_ofFn]
  rfl

/-- Two channels half a code period apart have ranges that light covers in half a millisecond. -/
theorem measureRanges_laws_half_period :
    let channels : Fin 2 → ChannelSnapshot ℝ :=
      ![⟨10, 1000, 0, 1023000, 0, 0⟩, ⟨10, 1000, 1023 / 2, 1023000, 0, 0⟩]
    let satellites : Fin 2 → Trajectory ℝ :=
      fun _ t => ⟨⟨20000000, 10000000, t⟩, ⟨0, 3000, 0⟩, 1 / 1000, 0⟩
    0 < 2 ∧ ∃ out : Fin 2 → RangeMeasurement ℝ,
      measureRanges 10 (List.ofFn channels) (List.ofFn satellites) = .ok (List.ofFn out) ∧
        (out 0).range - (out 1).range = 149896.229 := by
  intro channels satellites
  obtain ⟨out, hout, -, -, hdifference, -⟩ :=
    measureRanges_laws 10 channels satellites (by norm_num)
  refine ⟨by norm_num, out, hout, ?_⟩
  rw [hdifference 0 1]
  norm_num [channels, satellites, ChannelSnapshot.transmissionTime, speedOfLight, chippingRate]

end SatNav
