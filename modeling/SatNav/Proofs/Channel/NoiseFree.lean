import SatNav.Proofs.Binary64.Logarithm
import SatNav.Proofs.Binary64.RepeatedSums
import SatNav.Proofs.Binary64.RoundingError
import SatNav.Proofs.Channel.NoisePower

/-!
# The estimate of a run without noise

In exact arithmetic the noise power of a run without noise is zero, and the estimate is to be plus
infinity. In doubles the two powers are accumulated and divided separately, each with roundings of
its own, and it depends on the amplitude and the length of the run whether they come out equal. If
they do, the estimate is plus infinity; if the power of the signal comes out larger, it is
undefined. Nothing else that happens on the way makes a difference, neither underflow in the noise
power nor overflow in the ratio. The powers come out equal where the sums are exact, as they are for
one prompt or two and for whole amplitudes that are not too large.
-/

namespace SatNav

open Binary64

/-- The estimate where `f` is the logarithm of the system. -/
def carrierToNoiseWith (f : Float → Float) (prompts : List (Correlation Float)) (time : Float) :
    Float :=
  @carrierToNoise Float (withLog f) prompts time

theorem carrierToNoiseWith_log10 (prompts : List (Correlation Float)) (time : Float) :
    carrierToNoiseWith Float.log10 prompts time = carrierToNoise prompts time := rfl

theorem carrierToNoiseWith_eq (f : Float → Float) (prompts : List (Correlation Float))
    (time : Float) :
    carrierToNoiseWith f prompts time =
      10.0 * log10With f (signalToNoise prompts) - 10.0 * log10With f time := rfl

/-- No result on the way to the ratio is too large, and the power of the signal does not vanish. -/
structure InRange (prompts : List (Correlation Float)) : Prop where
  signal_pos : 0.0 < signalPower prompts
  signal_finite : (signalPower prompts).isFinite = true
  total_finite : (totalPower prompts).isFinite = true

/-- Nothing is in phase, and the amplitude in quadrature is `q` throughout. -/
def NoiseFree (q : Float) (prompts : List (Correlation Float)) : Prop :=
  ∀ c ∈ prompts, c.inPhase == 0.0 ∧ (c.quadrature == q ∨ c.quadrature == -q)

/-! ### The estimate of a run in range -/

section Cases

variable {f : Float → Float} {prompts : List (Correlation Float)} {time : Float} {a b : ℝ}

/-- The signal looks stronger than everything together. -/
theorem value_carrierToNoiseWith_of_gt (hsignal : value (signalPower prompts) = some (a : EReal))
    (htotal : value (totalPower prompts) = some (b : EReal)) (hb : 0 ≤ b) (hab : b < a) :
    value (carrierToNoiseWith f prompts time) = none := by
  obtain ⟨c, hc, hneg⟩ := value_div_excess_of_gt hsignal htotal hb hab
  have hratio : value (signalToNoise prompts) = some c := hc
  rw [carrierToNoiseWith_eq]
  exact value_sub_none _ (value_mul_none _ (value_log10With_of_neg hratio hneg))

variable (hf : IsCommonLog f) (htime : time.isFinite = true) (htime0 : 0.0 < time)

include hf htime htime0

theorem exists_value_log10With_time :
    ∃ m : ℝ, value (log10With f time) = some (m : EReal) ∧ |m| ≤ 324 := by
  obtain ⟨t, ht, hpos⟩ := exists_value_of_pos htime htime0
  exact value_log10With_of_pos hf ht hpos

theorem value_carrierToNoiseWith_of_eq (hsignal : value (signalPower prompts) = some (a : EReal))
    (htotal : value (totalPower prompts) = some (a : EReal)) (ha : 0 < a) :
    value (carrierToNoiseWith f prompts time) = some ⊤ := by
  have hratio : value (signalToNoise prompts) = some ⊤ :=
    value_div_excess_of_eq hsignal htotal ha
  obtain ⟨m, hm, habs⟩ := exists_value_log10With_time hf htime htime0
  rw [carrierToNoiseWith_eq]
  exact value_decibels_top (value_log10With_top hratio) hm habs

theorem value_carrierToNoiseWith_of_lt (hsignal : value (signalPower prompts) = some (a : EReal))
    (htotal : value (totalPower prompts) = some (b : EReal)) (ha : 0 < a) (hab : a < b) :
    ∃ c, value (carrierToNoiseWith f prompts time) = some c ∧ c < ⊤ := by
  obtain ⟨r, hr, hr0⟩ := value_div_excess_of_lt hsignal htotal ha hab
  have hratio : value (signalToNoise prompts) = some (r : EReal) := hr
  obtain ⟨l, hl, hle⟩ := value_log10With_of_nonneg hf hratio hr0
  obtain ⟨m, hm, habs⟩ := exists_value_log10With_time hf htime htime0
  rw [carrierToNoiseWith_eq]
  exact value_decibels_lt_top hl hle hm habs

/-- What the estimate of a run in range is, by how the two powers compare. -/
theorem carrierToNoiseWith_cases (hrange : InRange prompts)
    (htotal0 : AtLeast 0 (totalPower prompts)) :
    (value (carrierToNoiseWith f prompts time) = some ⊤ ↔
      totalPower prompts == signalPower prompts) ∧
    ((carrierToNoiseWith f prompts time).isNaN = true ↔
      totalPower prompts < signalPower prompts) ∧
    (signalPower prompts < totalPower prompts →
      ∃ c, value (carrierToNoiseWith f prompts time) = some c ∧ c < ⊤) := by
  obtain ⟨a, hsignal, ha⟩ := exists_value_of_pos hrange.signal_finite hrange.signal_pos
  obtain ⟨b, htotal⟩ := (isFinite_iff _).mp hrange.total_finite
  have hb : 0 ≤ b := EReal.coe_le_coe_iff.mp (htotal0 _ htotal)
  rw [isNaN_iff, beq_iff_of_value htotal hsignal, lt_iff_of_value htotal hsignal,
    lt_iff_of_value hsignal htotal, EReal.coe_eq_coe_iff, EReal.coe_lt_coe_iff,
    EReal.coe_lt_coe_iff]
  rcases lt_trichotomy a b with hab | rfl | hab
  · obtain ⟨c, hc, htop⟩ := value_carrierToNoiseWith_of_lt hf htime htime0 hsignal htotal ha hab
    simp [hc, htop, htop.ne, hab, hab.ne', hab.not_gt]
  · simp [value_carrierToNoiseWith_of_eq hf htime htime0 hsignal htotal ha]
  · simp [value_carrierToNoiseWith_of_gt hsignal htotal hb hab, hab, hab.ne, hab.not_gt]

end Cases

/-! ### Means -/

section Means

variable {prompts others : List (Correlation Float)} {g : Correlation Float → Float}

theorem value_ofCount (n : ℕ) :
    value (Scalar.ofCount n : Float) = some (round ((n : ℝ) : EReal)) := by
  rw [← Int.cast_natCast n]
  exact value_ofInt n

theorem one_le_count (h : prompts ≠ []) :
    ((1 : ℝ) : EReal) ≤ round ((prompts.length : ℝ) : EReal) := by
  have hone : ((1 : ℝ) : EReal) ≤ (prompts.length : ℝ) := by
    exact_mod_cast List.length_pos_iff.mpr h
  have hround : round ((1 : ℝ) : EReal) = ((1 : ℝ) : EReal) := by
    simpa using round_natCast (n := 1) (by norm_num)
  exact hround.symm.trans_le (round_mono hone)

theorem count_pos (h : prompts ≠ []) : 0 < round ((prompts.length : ℝ) : EReal) :=
  (EReal.coe_pos.mpr one_pos).trans_le (one_le_count h)

theorem meanOver_nonneg_of_sumOver (h : prompts ≠ []) (hsum : AtLeast 0 (sumOver g prompts)) :
    AtLeast 0 (meanOver g prompts) := by
  have hcount : AtLeast 1 (Scalar.ofCount prompts.length : Float) := by
    intro n hn
    obtain rfl := Option.some.inj ((value_ofCount _).symm.trans hn)
    exact one_le_count h
  exact hsum.div hcount one_pos

/-- A mean is a function of the value of the sum and of the length of the run. -/
theorem value_meanOver_congr (h : prompts ≠ []) (hlength : others.length = prompts.length)
    (hsum : value (sumOver g others) = value (sumOver g prompts)) :
    value (meanOver g others) = value (meanOver g prompts) := by
  rw [meanOver, meanOver, hlength]
  exact value_div_congr_left hsum (value_ofCount _) (count_pos h)

theorem exists_value_sumOver {c : ℝ}
    (hmean : value (meanOver g prompts) = some (c : EReal)) :
    ∃ s : ℝ, value (sumOver g prompts) = some (s : EReal) := by
  obtain ⟨a, _, ha, -⟩ := value_div_eq_some hmean
  rcases infinite_or_real ha with ⟨s, hs, -⟩ | ⟨r, rfl⟩
  · exact absurd hmean (div_ne_coe_of_infinity hs (value_ofCount _))
  · exact ⟨r, ha⟩

/-- The mean of equal numbers is exact where their sum is. -/
theorem value_meanOver_of_exactMultiples {x : Float} (h : prompts ≠ [])
    (hlength : prompts.length < 2 ^ 53) (hx : ExactMultiples x prompts.length) (hx0 : AtLeast 0 x)
    (hg : ∀ c ∈ prompts, value (g c) = value x) : value (meanOver g prompts) = value x := by
  obtain ⟨r, hr, hmultiples⟩ := hx
  have hr0 : (0 : EReal) ≤ r := hx0 _ hr
  have hsum := value_foldl_add hr0 (fun c hc => (hg c hc).trans hr) value_decimal_zero le_rfl
  rw [EReal.coe_zero, steadySum_of_exactMultiples hmultiples] at hsum
  have hcount := value_ofCount prompts.length
  rw [round_natCast hlength] at hcount
  have hlength0 : (prompts.length : ℝ) ≠ 0 := by simpa using h
  rw [meanOver, sumOver, value_div_coe hsum hcount hlength0, mul_div_cancel_left₀ r hlength0,
    round_value hr, hr]

end Means

/-! ### Runs without noise -/

namespace NoiseFree

variable {q : Float} {r : ℝ} {prompts others : List (Correlation Float)} {c : Correlation Float}

theorem value_quadrature (h : NoiseFree q prompts) (hq : value q = some (r : EReal))
    (hc : c ∈ prompts) : ∃ v : ℝ, value c.quadrature = some (v : EReal) ∧ (v = r ∨ v = -r) := by
  rcases (h c hc).2 with hsame | hopposite
  · exact ⟨r, (value_eq_of_beq hsame).trans hq, .inl rfl⟩
  · refine ⟨-r, (value_eq_of_beq hopposite).trans ?_, .inr rfl⟩
    rw [value_neg, hq]
    rfl

theorem value_amplitude (h : NoiseFree q prompts) (hq : value q = some (r : EReal)) (hr : 0 < r)
    (hc : c ∈ prompts) : value (Scalar.abs c.quadrature) = some (r : EReal) := by
  obtain ⟨v, hv, hsign⟩ := h.value_quadrature hq hc
  have habs : |v| = r := by
    rcases hsign with rfl | rfl
    · exact abs_of_pos hr
    · rw [abs_neg, abs_of_pos hr]
  rw [← habs]
  exact value_abs_of_real hv

theorem value_power (h : NoiseFree q prompts) (hq : value q = some (r : EReal))
    (hc : c ∈ prompts) : value c.power = value (q * q) := by
  obtain ⟨v, hv, hsign⟩ := h.value_quadrature hq hc
  have hinPhase : value c.inPhase = some ((0 : ℝ) : EReal) :=
    (value_eq_of_beq (h c hc).1).trans value_decimal_zero
  have hzero : value (c.inPhase * c.inPhase) = some ((0 : ℝ) : EReal) := by
    rw [value_mul_coe hinPhase hinPhase, mul_zero, EReal.coe_zero, round_zero]
  have hsquare : value (c.quadrature * c.quadrature) = value (q * q) := by
    rw [value_mul_coe hv hv, value_mul_coe hq hq]
    rcases hsign with rfl | rfl
    · rfl
    · rw [neg_mul_neg]
  have hround := value_mul_coe hq hq
  rw [hround] at hsquare ⊢
  rw [Correlation.power, value_add hzero hsquare (.inl (EReal.coe_ne_bot 0))
    (.inl (EReal.coe_ne_top 0)), EReal.coe_zero, zero_add, round_value hround]

theorem value_sumOver_amplitude (h : NoiseFree q prompts) (hq : value q = some (r : EReal))
    (hr : 0 < r) : value (sumOver (fun c => Scalar.abs c.quadrature) prompts) =
      some (steadySum r 0 prompts.length) :=
  value_foldl_add (EReal.coe_nonneg.mpr hr.le) (fun _ hc => h.value_amplitude hq hr hc)
    value_decimal_zero le_rfl

theorem value_sumOver_power (h : NoiseFree q prompts) (hq : value q = some (r : EReal)) :
    value (sumOver Correlation.power prompts) =
      some (steadySum (round ((r * r : ℝ) : EReal)) 0 prompts.length) :=
  value_foldl_add (round_nonneg (mul_self_nonneg r))
    (fun _ hc => (h.value_power hq hc).trans (value_mul_coe hq hq)) value_decimal_zero le_rfl

theorem totalPower_nonneg (h : NoiseFree q prompts) (hq : value q = some (r : EReal))
    (hne : prompts ≠ []) : AtLeast 0 (totalPower prompts) := by
  refine meanOver_nonneg_of_sumOver hne fun s hs => ?_
  obtain rfl := Option.some.inj ((h.value_sumOver_power hq).symm.trans hs)
  exact steadySum_nonneg le_rfl (round_nonneg (mul_self_nonneg r)) _

theorem powers_beq_of_exactMultiples (h : NoiseFree q prompts) (hq : value q = some (r : EReal))
    (hr : 0 < r) (hne : prompts ≠ []) (hlength : prompts.length < 2 ^ 53)
    (hamplitude : ExactMultiples q prompts.length)
    (hpower : ExactMultiples (q * q) prompts.length) :
    totalPower prompts == signalPower prompts := by
  have hq0 : AtLeast 0 q := (AtLeast.of_value hq).mono hr.le
  have hmean : value (meanOver (fun c => Scalar.abs c.quadrature) prompts) = value q :=
    value_meanOver_of_exactMultiples hne hlength hamplitude hq0
      fun _ hc => (h.value_amplitude hq hr hc).trans hq.symm
  have htotal : value (totalPower prompts) = value (q * q) :=
    value_meanOver_of_exactMultiples hne hlength hpower (hq0.mul_nonneg hq0)
      fun _ hc => h.value_power hq hc
  rw [hq] at hmean
  rw [value_mul_coe hq hq] at htotal
  exact (beq_iff_of_value htotal (value_mul_coe hmean hmean)).mpr rfl

/-- In range the sums of a run of one prompt or two are exact. -/
theorem exactMultiples_of_inRange (h : NoiseFree q prompts) (hq : value q = some (r : EReal))
    (hr : 0 < r) (hne : prompts ≠ []) (hrange : InRange prompts) (hlength : prompts.length ≤ 2) :
    ExactMultiples q prompts.length ∧ ExactMultiples (q * q) prompts.length := by
  obtain ⟨a, hsignal⟩ := (isFinite_iff _).mp hrange.signal_finite
  obtain ⟨b, htotal⟩ := (isFinite_iff _).mp hrange.total_finite
  obtain ⟨m, hmean⟩ := exists_value_of_mul_self hsignal
  obtain ⟨s, hs⟩ := exists_value_sumOver hmean
  obtain ⟨t, ht⟩ := exists_value_sumOver htotal
  rw [h.value_sumOver_amplitude hq hr] at hs
  rw [h.value_sumOver_power hq] at ht
  have hproduct := value_mul_coe hq hq
  obtain ⟨n, hn⟩ := Nat.exists_eq_succ_of_ne_zero (List.length_pos_iff.mpr hne).ne'
  -- an infinite square would have made the mean power infinite
  have hfinite : round ((r * r : ℝ) : EReal) ≠ ⊤ := by
    intro htop
    rw [htop, hn, steadySum_top EReal.zero_ne_bot] at ht
    exact EReal.top_ne_coe t (Option.some.inj ht)
  have hpositive := (EReal.bot_lt_zero.trans_le (round_nonneg (mul_self_nonneg r))).ne'
  lift round ((r * r : ℝ) : EReal) to ℝ using ⟨hfinite, hpositive⟩ with p
  exact ⟨exactMultiples_of_le_two hq hlength (Option.some.inj hs),
    exactMultiples_of_le_two hproduct hlength (Option.some.inj ht)⟩

/-- Only the amplitude and the length of a run without noise have a part in the powers. -/
theorem value_powers_congr (h : NoiseFree q prompts) (hothers : NoiseFree q others)
    (hq : value q = some (r : EReal)) (hr : 0 < r) (hne : prompts ≠ []) (hrange : InRange prompts)
    (hlength : others.length = prompts.length) :
    value (signalPower others) = value (signalPower prompts) ∧
      value (totalPower others) = value (totalPower prompts) := by
  obtain ⟨a, hsignal⟩ := (isFinite_iff _).mp hrange.signal_finite
  obtain ⟨m, hmean⟩ := exists_value_of_mul_self hsignal
  have hamplitude : value (sumOver (fun c => Scalar.abs c.quadrature) others) =
      value (sumOver (fun c => Scalar.abs c.quadrature) prompts) := by
    rw [hothers.value_sumOver_amplitude hq hr, h.value_sumOver_amplitude hq hr, hlength]
  have hpower : value (sumOver Correlation.power others) =
      value (sumOver Correlation.power prompts) := by
    rw [hothers.value_sumOver_power hq, h.value_sumOver_power hq, hlength]
  have hmean' := (value_meanOver_congr hne hlength hamplitude).trans hmean
  exact ⟨(value_mul_coe hmean' hmean').trans (value_mul_coe hmean hmean).symm,
    value_meanOver_congr hne hlength hpower⟩

end NoiseFree

variable {f : Float → Float} {q time : Float} {prompts : List (Correlation Float)}

/-- The estimate of a run without noise, in range and for a positive time, with any logarithm. It is
plus infinity just if the two powers come out equal, undefined just if that of the signal comes out
larger, and less than infinity otherwise. It is plus infinity for one prompt or two and wherever
the sums are exact. The powers depend on nothing but the amplitude and the length of the run. -/
theorem estimate_of_noiseFree (hf : IsCommonLog f) (hq : q.isFinite = true) (hq0 : 0.0 < q)
    (htime : time.isFinite = true) (htime0 : 0.0 < time) (hne : prompts ≠ [])
    (h : NoiseFree q prompts) (hrange : InRange prompts) :
    carrierToNoiseWith Float.log10 prompts time = carrierToNoise prompts time ∧
    (value (carrierToNoiseWith f prompts time) = some ⊤ ↔
      totalPower prompts == signalPower prompts) ∧
    ((carrierToNoiseWith f prompts time).isNaN = true ↔
      totalPower prompts < signalPower prompts) ∧
    (signalPower prompts < totalPower prompts →
      ∃ c, value (carrierToNoiseWith f prompts time) = some c ∧ c < ⊤) ∧
    (prompts.length ≤ 2 → value (carrierToNoiseWith f prompts time) = some ⊤) ∧
    (prompts.length < 2 ^ 53 → ExactMultiples q prompts.length →
      ExactMultiples (q * q) prompts.length →
      value (carrierToNoiseWith f prompts time) = some ⊤) ∧
    ∀ others, NoiseFree q others → others.length = prompts.length →
      value (signalPower others) = value (signalPower prompts) ∧
        value (totalPower others) = value (totalPower prompts) := by
  obtain ⟨r, hr, hr0⟩ := exists_value_of_pos hq hq0
  obtain ⟨htop, hnan, hless⟩ := carrierToNoiseWith_cases hf htime htime0 hrange
    (h.totalPower_nonneg hr hne)
  refine ⟨rfl, htop, hnan, hless, fun hlength => ?_, fun hlength hamplitude hpower => ?_,
    fun others hothers => h.value_powers_congr hothers hr hr0 hne hrange⟩
  · obtain ⟨hamplitude, hpower⟩ := h.exactMultiples_of_inRange hr hr0 hne hrange hlength
    exact htop.mpr (h.powers_beq_of_exactMultiples hr hr0 hne (by omega) hamplitude hpower)
  · exact htop.mpr (h.powers_beq_of_exactMultiples hr hr0 hne hlength hamplitude hpower)

/-- Twenty code periods of amplitude 50 that are integrated over a millisecond each, every fourth
with the other data bit. The logarithm is only asked for that of the time. -/
theorem estimate_of_noiseFree_twenty :
    let f : Float → Float := fun _ => -3.0
    let prompts : List (Correlation Float) :=
      (List.range 20).map fun k => ⟨0.0, if k % 4 = 3 then -51150.0 else 51150.0⟩
    IsCommonLog f ∧ NoiseFree 51150.0 prompts ∧ InRange prompts ∧
      value (carrierToNoiseWith f prompts 1.0e-3) = some ⊤ := by
  intro f prompts
  have hf : IsCommonLog f := by
    intro x _ _
    have hthree : value 3.0 = some ((3 : ℝ) : EReal) := by
      exact_mod_cast value_literal (n := 3) (by norm_num)
    refine ⟨-3, ?_, by norm_num⟩
    rw [value_neg, hthree]
    rfl
  have hfree : NoiseFree 51150.0 prompts := by
    unfold NoiseFree
    decide +kernel
  have hrange : InRange prompts := ⟨by decide +kernel, by decide +kernel, by decide +kernel⟩
  have hamplitude : value 51150.0 = some (((51150 : ℕ) : ℝ) : EReal) :=
    value_literal (n := 51150) (by norm_num)
  have hpower : value (51150.0 * 51150.0) = some (((51150 * 51150 : ℕ) : ℝ) : EReal) := by
    rw [value_mul_coe hamplitude hamplitude, ← Nat.cast_mul, Binary64.round_natCast (by norm_num)]
  have hlength : prompts.length = 20 := rfl
  have htime : (1.0e-3 : Float).isFinite = true := by decide +kernel
  have htime0 : 0.0 < (1.0e-3 : Float) := by decide +kernel
  obtain ⟨-, -, -, -, -, hexact, -⟩ := estimate_of_noiseFree hf (q := 51150.0)
    (by decide +kernel) (by decide +kernel) htime htime0 (List.ne_nil_of_length_pos (by omega))
    hfree hrange
  rw [hlength] at hexact
  exact ⟨hf, hfree, hrange, hexact (by norm_num)
    (exactMultiples_of_natCast hamplitude (by norm_num))
    (exactMultiples_of_natCast hpower (by norm_num))⟩

/-- Three prompts of amplitude 0.1 have an undefined estimate, though no result on the way is near
an end of the range. -/
theorem undefined_estimate_of_noiseFree :
    let prompts : List (Correlation Float) := List.replicate 3 ⟨0.0, 0.1⟩
    let amplitude (c : Correlation Float) : Float := Scalar.abs c.quadrature
    NoiseFree 0.1 prompts ∧ InRange prompts ∧
      (∀ x ∈ [sumOver amplitude (prompts.take 1), sumOver amplitude (prompts.take 2),
          sumOver amplitude prompts, meanOver amplitude prompts,
          sumOver Correlation.power (prompts.take 1), sumOver Correlation.power (prompts.take 2),
          sumOver Correlation.power prompts, signalPower prompts, totalPower prompts,
          noisePower prompts, signalToNoise prompts],
        1.0e-300 ≤ x.abs ∧ x.abs ≤ 1.0e300) ∧
      (carrierToNoise prompts 1.0e-3).isNaN = true := by
  intro prompts amplitude
  have hrange : InRange prompts := ⟨by decide +kernel, by decide +kernel, by decide +kernel⟩
  have hless : totalPower prompts < signalPower prompts := by decide +kernel
  have hpositive : 0.0 < totalPower prompts := by decide +kernel
  obtain ⟨a, hsignal⟩ := (isFinite_iff _).mp hrange.signal_finite
  obtain ⟨b, htotal⟩ := (isFinite_iff _).mp hrange.total_finite
  rw [lt_iff_of_value htotal hsignal, EReal.coe_lt_coe_iff] at hless
  rw [lt_iff_of_value value_decimal_zero htotal, EReal.coe_lt_coe_iff] at hpositive
  refine ⟨?_, hrange, by decide +kernel, ?_⟩
  · unfold NoiseFree
    decide +kernel
  · rw [isNaN_iff, ← carrierToNoiseWith_log10]
    exact value_carrierToNoiseWith_of_gt hsignal htotal hpositive.le hless

end SatNav
