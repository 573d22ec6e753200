import SatNav.Proofs.Orbit.WeekCrossover
import SatNav.Proofs.Ranging.Pseudorange

/-!
# Ranges of channels that count another week

`ChannelSnapshot.postpone` moves the time of week of a channel, and with it the time at
which its signal left. When all channels are moved alike the times keep their distance to
the mean, so the ranges change only with the satellites.

Satellites of current ephemerides are where they were a week ago. So when all channels
count a week more nothing but the times of transmission shows it.
-/

namespace SatNav

open Exact

/-- The snapshot with its time of week moved on by a number of milliseconds. -/
def ChannelSnapshot.postpone (s : ChannelSnapshot ℝ) (count : UInt32) : ChannelSnapshot ℝ :=
  { s with timeOfWeek := s.timeOfWeek + count }

/-- The measurement with its time of transmission moved on. -/
noncomputable def RangeMeasurement.postpone (m : RangeMeasurement ℝ) (delay : ℝ) :
    RangeMeasurement ℝ :=
  { m with transmission := m.transmission + delay }

/-- Seconds in a number of milliseconds. -/
noncomputable def delayOf (count : UInt32) : ℝ := 1.0e-3 * count.toNat

theorem delayOf_week : delayOf 604800000 = 604800 := by
  have hweek : UInt32.toNat 604800000 = 604800000 := rfl
  rw [delayOf, hweek]
  norm_num

section Postpone

variable {count : UInt32} {epoch : ℝ}

theorem ChannelSnapshot.transmissionTime_postpone {s : ChannelSnapshot ℝ}
    (hfits : s.timeOfWeek.toNat + count.toNat < 2 ^ 32) :
    (s.postpone count).transmissionTime epoch = s.transmissionTime epoch + delayOf count := by
  have hcount : (s.postpone count).timeOfWeek.toNat = s.timeOfWeek.toNat + count.toNat := by
    simp only [postpone]
    rw [UInt32.toNat_add]
    exact Nat.mod_eq_of_lt hfits
  rw [transmissionTime, transmissionTime, hcount, Scalar.ofCount_real, Scalar.ofCount_real,
    delayOf]
  simp only [postpone]
  push_cast
  ring

/-- A common delay moves the mean. -/
theorem meanTime_map_add {times : List ℝ} (hne : times ≠ []) (delay : ℝ) :
    meanTime (times.map (· + delay)) = meanTime times + delay := by
  have hlength : (times.length : ℝ) ≠ 0 := by simpa using hne
  rw [meanTime_real, meanTime_real, List.sum_map_add, List.map_id', List.length_map,
    List.map_const', List.sum_replicate, nsmul_eq_mul]
  field_simp

/-- A delay that the mean shares does not change a range. -/
theorem RangeMeasurement.ofState_postpone (s : ChannelSnapshot ℝ)
    (transmission mean delay : ℝ) (satellite : SatelliteState ℝ) :
    RangeMeasurement.ofState (s.postpone count) (transmission + delay) (mean + delay) satellite =
      (RangeMeasurement.ofState s transmission mean satellite).postpone delay := by
  simp only [ofState, postpone, ChannelSnapshot.postpone, add_sub_add_right_eq_sub]

/-- Channels that are all moved on by one delay, after which their satellites are where they were,
yield the same measurements with that delay. -/
theorem measureRanges_postpone {channels : List (ChannelSnapshot ℝ)}
    {satellites : List (Trajectory ℝ)}
    (hfits : ∀ s ∈ channels, s.timeOfWeek.toNat + count.toNat < 2 ^ 32)
    (hsame : ∀ pair ∈ channels.zip satellites,
      pair.2 (pair.1.transmissionTime epoch + delayOf count) =
        pair.2 (pair.1.transmissionTime epoch)) :
    measureRanges epoch (channels.map (·.postpone count)) satellites =
      (measureRanges epoch channels satellites).map (List.map (·.postpone (delayOf count))) := by
  have htimes : (channels.map (·.postpone count)).map (·.transmissionTime epoch) =
      (channels.map (·.transmissionTime epoch)).map (· + delayOf count) := by
    rw [List.map_map, List.map_map]
    exact List.map_congr_left fun s hs => s.transmissionTime_postpone (hfits s hs)
  unfold measureRanges
  rw [List.isEmpty_map, List.length_map]
  split_ifs with hempty hlength
  · rfl
  · rfl
  · have hne : channels.map (·.transmissionTime epoch) ≠ [] := by
      simpa using hempty
    rw [htimes, meanTime_map_add hne, Except.map]
    dsimp only
    rw [List.zipWith_map_left, List.map_zipWith, ← List.map_uncurry_zip_eq_zipWith,
      ← List.map_uncurry_zip_eq_zipWith]
    refine congrArg Except.ok (List.map_congr_left fun pair hpair => ?_)
    have hfit := hfits pair.1 (List.of_mem_zip hpair).1
    simp only [Function.uncurry, ChannelSnapshot.transmissionTime_postpone hfit, hsame pair hpair,
      RangeMeasurement.ofState_postpone]

end Postpone

/-- Satellites of current ephemerides are in the same state a week later. -/
theorem state_add_week_of_mem_zip {epoch : ℝ} {channels : List (ChannelSnapshot ℝ)}
    {ephemerides : List (BroadcastEphemeris ℝ)}
    (hcurrent : ∀ pair ∈ channels.zip ephemerides,
      pair.2.IsCurrentAt (pair.1.transmissionTime epoch))
    {pair : ChannelSnapshot ℝ × Trajectory ℝ}
    (hpair : pair ∈ channels.zip (ephemerides.map (·.state))) :
    pair.2 (pair.1.transmissionTime epoch + 604800) = pair.2 (pair.1.transmissionTime epoch) := by
  rw [List.zip_map_right, List.mem_map] at hpair
  obtain ⟨⟨s, eph⟩, hmem, rfl⟩ := hpair
  have hone : |(1 : ℤ)| ≤ 1 := by norm_num
  have hsame := (hcurrent _ hmem).state_add_weeks hone
  rwa [Int.cast_one, one_mul] at hsame

/-- The end of a week does not show in the state of a satellite. Less than half a week away from
both reference times a time gives the same state, and the same clock polynomial, as the times a
week before and after it. Up to one and a half weeks away from a reference time the interval to it
that is used is at most half a week, and it is the difference of the times up to whole weeks. So
the measurements of channels that all count a week more are the same, except that the times of
transmission are a week later. -/
theorem week_crossover_invisible :
    (∀ (eph : BroadcastEphemeris ℝ) (t : ℝ), |t - eph.orbitTime| < 302400 →
      |t - eph.clockTime| < 302400 →
      (eph.state (t + 604800) = eph.state t ∧ eph.state (t - 604800) = eph.state t) ∧
        eph.clockPolynomial (t + 604800) = eph.clockPolynomial t ∧
        eph.clockPolynomial (t - 604800) = eph.clockPolynomial t) ∧
    (∀ (eph : BroadcastEphemeris ℝ) (t : ℝ), |t - eph.orbitTime| ≤ 907200 →
      |eph.orbitInterval t| ≤ 302400 ∧
        ∃ weeks : ℤ, eph.orbitInterval t = t - eph.orbitTime + weeks * 604800) ∧
    (∀ (eph : BroadcastEphemeris ℝ) (t : ℝ), |t - eph.clockTime| ≤ 907200 →
      |eph.clockInterval t| ≤ 302400 ∧
        ∃ weeks : ℤ, eph.clockInterval t = t - eph.clockTime + weeks * 604800) ∧
    ∀ (epoch : ℝ) (channels : List (ChannelSnapshot ℝ))
      (ephemerides : List (BroadcastEphemeris ℝ)),
      (∀ s ∈ channels, s.timeOfWeek.toNat + 604800000 < 2 ^ 32) →
      (∀ pair ∈ channels.zip ephemerides,
        |pair.1.transmissionTime epoch - pair.2.orbitTime| < 302400 ∧
          |pair.1.transmissionTime epoch - pair.2.clockTime| < 302400) →
      measureRanges epoch (channels.map (·.postpone 604800000)) (ephemerides.map (·.state)) =
        (measureRanges epoch channels (ephemerides.map (·.state))).map
          (List.map fun m => { m with transmission := m.transmission + 604800 }) := by
  refine ⟨fun eph t horbit hclock => ?_,
    fun eph t h => ⟨abs_withinHalfWeek_le h, exists_withinHalfWeek_eq _⟩,
    fun eph t h => ⟨abs_withinHalfWeek_le h, exists_withinHalfWeek_eq _⟩, ?_⟩
  · have hlater : t + 604800 = t + (1 : ℤ) * 604800 := by norm_num
    have hearlier : t - 604800 = t + (-1 : ℤ) * 604800 := by
      rw [Int.cast_neg, Int.cast_one, neg_one_mul, sub_eq_add_neg]
    have hcurrent : eph.IsCurrentAt t := ⟨horbit, hclock⟩
    rw [hlater, hearlier]
    exact ⟨⟨hcurrent.state_add_weeks (by norm_num), hcurrent.state_add_weeks (by norm_num)⟩,
      BroadcastEphemeris.clockPolynomial_add_weeks hclock (by norm_num),
      BroadcastEphemeris.clockPolynomial_add_weeks hclock (by norm_num)⟩
  · intro epoch channels ephemerides hfits hcurrent
    have hweek : UInt32.toNat 604800000 = 604800000 := rfl
    rw [measureRanges_postpone (by rwa [hweek]), delayOf_week]
    · rfl
    · intro pair hpair
      rw [delayOf_week]
      refine state_add_week_of_mem_zip (fun pair hmem => ?_) hpair
      obtain ⟨horbit, hclock⟩ := hcurrent pair hmem
      exact ⟨horbit, hclock⟩

/-- Ten seconds into a week, with reference times two hours into it. -/
theorem week_crossover_invisible_first_seconds :
    let eph : BroadcastEphemeris ℝ :=
      { weekNumber := 0, groupDelay := -1.1e-8, ageOfData := 0, fitInterval := false
        clockTime := 7200, clockBias := 1e-4, clockRate := 2e-12, clockAging := 1e-18
        orbitTime := 7200, sqrtAxis := 5153.6, motionCorrection := 1.4e-9, meanAnomaly := 0.3
        eccentricity := 0.01, perigee := -0.6, node := 0.25, nodeRate := -2.6e-9
        latitudeSin := 6e-6, latitudeCos := -1.5e-6, radiusSin := -30, radiusCos := 250
        inclinationSin := 1e-7, inclinationCos := -5e-8
        inclination := 0.31, inclinationRate := 1e-10, issueOfData := 0 }
    let channel : ChannelSnapshot ℝ := ⟨0, 10000, 0, 1023000, 0, 0⟩
    (|10 - eph.orbitTime| < 302400 ∧ |10 - eph.clockTime| < 302400 ∧
      eph.state (10 - 604800) = eph.state 10) ∧
    (|(10 - 604800) - eph.orbitTime| ≤ 907200 ∧ |eph.orbitInterval (10 - 604800)| ≤ 302400) ∧
    (|(10 - 604800) - eph.clockTime| ≤ 907200 ∧ |eph.clockInterval (10 - 604800)| ≤ 302400) ∧
    (channel.timeOfWeek.toNat + 604800000 < 2 ^ 32 ∧ channel.transmissionTime 0 = 10 ∧
      measureRanges 0 [channel.postpone 604800000] [eph.state] =
        (measureRanges 0 [channel] [eph.state]).map
          (List.map fun m => { m with transmission := m.transmission + 604800 })) := by
  intro eph channel
  have horbit : |10 - eph.orbitTime| < 302400 := by norm_num [eph, abs_of_neg]
  have hclock : |10 - eph.clockTime| < 302400 := by norm_num [eph, abs_of_neg]
  have horbit' : |(10 - 604800) - eph.orbitTime| ≤ 907200 := by norm_num [eph, abs_of_neg]
  have hclock' : |(10 - 604800) - eph.clockTime| ≤ 907200 := by norm_num [eph, abs_of_neg]
  have hcount : channel.timeOfWeek.toNat = 10000 := rfl
  have htime : channel.transmissionTime 0 = 10 := by
    norm_num [ChannelSnapshot.transmissionTime, hcount, channel]
  have hfits : channel.timeOfWeek.toNat + 604800000 < 2 ^ 32 := by
    rw [hcount]
    norm_num
  obtain ⟨hstate, hinterval, hclockInterval, hranges⟩ := week_crossover_invisible
  refine ⟨⟨horbit, hclock, (hstate eph 10 horbit hclock).1.2⟩,
    ⟨horbit', (hinterval eph _ horbit').1⟩, ⟨hclock', (hclockInterval eph _ hclock').1⟩,
    hfits, htime, hranges 0 [channel] [eph] ?_ ?_⟩
  · simpa using hfits
  · intro pair hpair
    obtain rfl : pair = (channel, eph) := by simpa using hpair
    rw [htime]
    exact ⟨horbit, hclock⟩

end SatNav
