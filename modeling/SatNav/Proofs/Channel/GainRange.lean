import SatNav.Proofs.Binary64.Ranges
import SatNav.Proofs.Channel.Overlay

/-!
# The gains of loops that are accepted

A loop is accepted for the signs of its parameters. That leaves their size open, and the
products that the gains are made of may be too large or too small for a double:
`wideText` and `slowLoop` are accepted, and there are gains that are undefined or zero.

`FilterGains.SoundFor` says what holds of the gains of every loop that is accepted. They
are never negative for a positive gain of the loop, and are finite and positive just where
numerator and denominator are finite and the exact quotient is in the range of the doubles.
Parameters between `1e-18` and `1e18` keep well within that range.
-/

namespace SatNav

open Binary64

open Json (Value)

/-! ### Gains as quotients -/

namespace LoopSpec

variable {R : Type} [Scalar R]

/-- What the proportional gain is for natural frequency `w`, but for the denominator. -/
def proportionalNumerator (s : LoopSpec R) (w : R) : R :=
  8.0 * s.damping * w * (1.0 / s.updateRate)

/-- What the integral gain is for natural frequency `w`, but for the denominator. -/
def integralNumerator (s : LoopSpec R) (w : R) : R :=
  4.0 * w * w * (1.0 / s.updateRate) * (1.0 / s.updateRate)

/-- What both gains are divided by. -/
def gainDenominator (s : LoopSpec R) (w : R) : R :=
  s.gain * (4.0 + 4.0 * s.damping * w * (1.0 / s.updateRate) +
    w * w * (1.0 / s.updateRate) * (1.0 / s.updateRate))

theorem exists_digitalFilter {s : LoopSpec R} (h : s.failing? = none) :
    ∃ g, s.digitalFilter = .ok g := by
  have haccepted := s.digitalFilter_eq
  rwa [h] at haccepted

/-- The gains as quotients. -/
theorem eq_div_of_digitalFilter {s : LoopSpec R} {g : FilterGains R}
    (h : s.digitalFilter = .ok g) :
    0.0 < s.updateRate ∧ ∃ w, s.naturalFrequency = .ok w ∧
      g = ⟨s.proportionalNumerator w / s.gainDenominator w,
        s.integralNumerator w / s.gainDenominator w⟩ := by
  obtain ⟨-, hrate, w, hw, hg⟩ := digitalFilter_eq_ok_iff.mp h
  exact ⟨hrate, w, hw, hg⟩

end LoopSpec

/-! ### Signs -/

theorem nonneg_one : AtLeast 0 1.0 := .literal_nonneg (n := 1) (by norm_num)

theorem nonneg_four : AtLeast 0 4.0 := .literal_nonneg (n := 4) (by norm_num)

theorem nonneg_eight : AtLeast 0 8.0 := .literal_nonneg (n := 8) (by norm_num)

namespace LoopSpec

variable {s : LoopSpec Float} {w : Float}

theorem updateInterval_nonneg (hrate : 0.0 < s.updateRate) : AtLeast 0 (1.0 / s.updateRate) :=
  nonneg_one.div (.of_pos hrate) (zpow_pos (by norm_num) _)

theorem dampingSquare_nonneg (hdamping : 0.0 < s.damping) :
    AtLeast 0 (4.0 * s.damping * s.damping) :=
  (nonneg_four.mul_nonneg (.nonneg_of_pos hdamping)).mul_nonneg (.nonneg_of_pos hdamping)

theorem naturalFrequency_nonneg (h : s.naturalFrequency = .ok w) : AtLeast 0 w := by
  obtain ⟨hbandwidth, hdamping, rfl⟩ := naturalFrequency_eq_ok_iff.mp h
  have hone : AtLeast 1 1.0 := by
    simpa using AtLeast.of_literal (n := 1) (by norm_num)
  have hrepresentable : Representable (0 + 1) := by
    simpa using representable_zpow (e := 0) (by norm_num) (by norm_num)
  have hdenominator := (dampingSquare_nonneg hdamping).add hone hrepresentable
  exact (((AtLeast.nonneg_of_pos hbandwidth).mul_nonneg nonneg_eight).mul_nonneg
    (.nonneg_of_pos hdamping)).div hdenominator (by norm_num)

section Nonneg

variable (hdamping : 0.0 < s.damping) (hrate : 0.0 < s.updateRate) (hw : AtLeast 0 w)
include hrate hw

theorem integralNumerator_nonneg : AtLeast 0 (s.integralNumerator w) :=
  (((nonneg_four.mul_nonneg hw).mul_nonneg hw).mul_nonneg
    (updateInterval_nonneg hrate)).mul_nonneg (updateInterval_nonneg hrate)

theorem quadraticTerm_nonneg :
    AtLeast 0 (w * w * (1.0 / s.updateRate) * (1.0 / s.updateRate)) :=
  ((hw.mul_nonneg hw).mul_nonneg (updateInterval_nonneg hrate)).mul_nonneg
    (updateInterval_nonneg hrate)

include hdamping

theorem proportionalNumerator_nonneg : AtLeast 0 (s.proportionalNumerator w) :=
  ((nonneg_eight.mul_nonneg (.nonneg_of_pos hdamping)).mul_nonneg hw).mul_nonneg
    (updateInterval_nonneg hrate)

theorem linearTerm_nonneg : AtLeast 0 (4.0 * s.damping * w * (1.0 / s.updateRate)) :=
  ((nonneg_four.mul_nonneg (.nonneg_of_pos hdamping)).mul_nonneg hw).mul_nonneg
    (updateInterval_nonneg hrate)

/-- The denominator is at least four times the gain, and so even for the least gain it is not rounded
to zero. -/
theorem gainDenominator_atLeast (hgain : 0.0 < s.gain) :
    AtLeast (2 ^ (-1072 : ℤ)) (s.gainDenominator w) := by
  have hfour : AtLeast (2 ^ (2 : ℤ)) 4.0 :=
    (AtLeast.of_literal (n := 4) (by norm_num)).mono (by norm_num)
  have hrepresentable := representable_zpow (e := 2) (by norm_num) (by norm_num)
  have hsum := (hfour.add_nonneg (linearTerm_nonneg hdamping hrate hw) hrepresentable).add_nonneg
    (quadraticTerm_nonneg hrate hw) hrepresentable
  have hproduct : (2 : ℝ) ^ (-1074 : ℤ) * 2 ^ (2 : ℤ) = 2 ^ (-1072 : ℤ) := by
    rw [← zpow_add₀ (by norm_num)]
    norm_num
  rw [← hproduct]
  refine (AtLeast.of_pos hgain).mul hsum (zpow_nonneg (by norm_num) _)
    (zpow_nonneg (by norm_num) _) ?_
  rw [hproduct]
  exact representable_zpow (by norm_num) (by norm_num)

end Nonneg

/-! ### Sizes -/

/-- No parameter is very large or very small. -/
def Moderate (s : LoopSpec Float) : Prop :=
  ∀ field, 1e-18 ≤ (s.get field).abs ∧ (s.get field).abs ≤ 1e18

theorem inBinades_of_abs {x : Float} (hlow : 1e-18 ≤ x.abs) (hhigh : x.abs ≤ 1e18) :
    InBinades x (-60) 60 := by
  have hsmall : value 1e-18 = some ((5192296858534828 * 2 ^ (-112 : ℤ) : ℝ) : EReal) := by
    have hunpack : (1e-18 : Float).toModel.unpack =
        .finite .positive 5192296858534828 (-112) (by decide) := rfl
    rw [value, hunpack, unpackedValue_finite, signed]
    norm_num
  have hlarge : value 1e18 = some ((7812500000000000 * 2 ^ (7 : ℤ) : ℝ) : EReal) := by
    have hunpack : (1e18 : Float).toModel.unpack =
        .finite .positive 7812500000000000 7 (by decide) := rfl
    rw [value, hunpack, unpackedValue_finite, signed]
    norm_num
  cases ha : value x with
  | none =>
    obtain ⟨-, b, -, hb, -⟩ := (le_iff _ _).mp hlow
    rw [value_abs_none ha] at hb
    cases hb
  | some a =>
    have habs := value_abs ha
    rw [le_iff_of_value hsmall habs] at hlow
    rw [le_iff_of_value habs hlarge] at hhigh
    have htop : a ≠ ⊤ := by
      rintro rfl
      exact ((le_max_left _ _).trans hhigh).not_gt (EReal.coe_lt_top _)
    have hbot : a ≠ ⊥ := by
      rintro rfl
      exact ((le_max_right _ _).trans hhigh).not_gt (EReal.coe_lt_top _)
    lift a to ℝ using ⟨htop, hbot⟩
    have hmax : max (a : EReal) (-(a : EReal)) = ((|a| : ℝ) : EReal) :=
      (EReal.coe_strictMono.monotone.map_max (a := a) (b := -a)).symm
    rw [hmax, EReal.coe_le_coe_iff] at hlow hhigh
    refine ⟨a, ha, le_trans ?_ hlow, hhigh.trans ?_⟩
    · norm_num [zpow_neg]
    · norm_num

theorem inBinades_one : InBinades 1.0 0 0 := .of_literal (n := 1) (by norm_num) (by norm_num)

theorem inBinades_four : InBinades 4.0 2 2 := .of_literal (n := 4) (by norm_num) (by norm_num)

theorem inBinades_eight : InBinades 8.0 3 3 := .of_literal (n := 8) (by norm_num) (by norm_num)

section Moderate

variable (hmoderate : s.Moderate) (hrate : 0.0 < s.updateRate) (hw : s.naturalFrequency = .ok w)
include hmoderate

theorem Moderate.inBinades (field : LoopField) : InBinades (s.get field) (-60) 60 :=
  inBinades_of_abs (hmoderate field).1 (hmoderate field).2

theorem damping_inBinades : InBinades s.damping (-60) 60 := hmoderate.inBinades .damping

theorem updateInterval_inBinades : InBinades (1.0 / s.updateRate) (-60) 60 :=
  inBinades_one.div (hmoderate.inBinades .updateRate) (by norm_num) (by norm_num)

include hw

theorem naturalFrequency_inBinades : InBinades w (-240) 123 := by
  obtain ⟨-, hdamping, rfl⟩ := naturalFrequency_eq_ok_iff.mp hw
  have hb : InBinades s.bandwidth (-60) 60 := hmoderate.inBinades .bandwidth
  have hz := damping_inBinades hmoderate
  have hnumerator : InBinades (s.bandwidth * 8.0 * s.damping) (-117) 123 :=
    (hb.mul inBinades_eight (by norm_num) (by norm_num)).mul hz (by norm_num) (by norm_num)
  have hsquare : InBinades (4.0 * s.damping * s.damping) (-118) 122 :=
    (inBinades_four.mul hz (by norm_num) (by norm_num)).mul hz (by norm_num) (by norm_num)
  -- `add` bounds a sum below by its first part, and here one is the better bound.
  have hdenominator : InBinades (4.0 * s.damping * s.damping + 1.0) 0 123 := by
    rw [comm_add]
    exact inBinades_one.add hsquare nonneg_one (dampingSquare_nonneg hdamping) (by norm_num)
      le_rfl (by norm_num) (by norm_num)
  exact hnumerator.div hdenominator (by norm_num) (by norm_num)

theorem proportionalNumerator_inBinades :
    InBinades (s.proportionalNumerator w) (-357) 246 := by
  have hz := damping_inBinades hmoderate
  have hf := naturalFrequency_inBinades hmoderate hw
  have ht := updateInterval_inBinades hmoderate
  exact ((inBinades_eight.mul hz (by norm_num) (by norm_num)).mul hf (by norm_num)
    (by norm_num)).mul ht (by norm_num) (by norm_num)

theorem integralNumerator_inBinades : InBinades (s.integralNumerator w) (-598) 368 := by
  have hf := naturalFrequency_inBinades hmoderate hw
  have ht := updateInterval_inBinades hmoderate
  exact (((inBinades_four.mul hf (by norm_num) (by norm_num)).mul hf (by norm_num)
    (by norm_num)).mul ht (by norm_num) (by norm_num)).mul ht (by norm_num) (by norm_num)

include hrate

theorem gainDenominator_inBinades : InBinades (s.gainDenominator w) (-58) 427 := by
  obtain ⟨-, hdamping, -⟩ := naturalFrequency_eq_ok_iff.mp hw
  have hk : InBinades s.gain (-60) 60 := hmoderate.inBinades .gain
  have hz := damping_inBinades hmoderate
  have hf := naturalFrequency_inBinades hmoderate hw
  have ht := updateInterval_inBinades hmoderate
  have hf0 := naturalFrequency_nonneg hw
  have hlinear : InBinades (4.0 * s.damping * w * (1.0 / s.updateRate)) (-358) 245 :=
    ((inBinades_four.mul hz (by norm_num) (by norm_num)).mul hf (by norm_num)
      (by norm_num)).mul ht (by norm_num) (by norm_num)
  have hquadratic :
      InBinades (w * w * (1.0 / s.updateRate) * (1.0 / s.updateRate)) (-600) 366 :=
    ((hf.mul hf (by norm_num) (by norm_num)).mul ht (by norm_num) (by norm_num)).mul ht
      (by norm_num) (by norm_num)
  have hlinear0 := linearTerm_nonneg hdamping hrate hf0
  have hquadratic0 := quadraticTerm_nonneg hrate hf0
  have hpartial : InBinades (4.0 + 4.0 * s.damping * w * (1.0 / s.updateRate)) 2 246 :=
    inBinades_four.add hlinear nonneg_four hlinear0 (by norm_num) le_rfl (by norm_num)
      (by norm_num)
  have hpartial0 : AtLeast 0 (4.0 + 4.0 * s.damping * w * (1.0 / s.updateRate)) :=
    nonneg_four.add_nonneg hlinear0 representable_zero
  have hsum := hpartial.add hquadratic hpartial0 hquadratic0 (by norm_num) le_rfl (by norm_num)
    (by norm_num)
  exact hk.mul hsum (by norm_num) (by norm_num)

end Moderate

end LoopSpec

/-! ### Gains that are accepted -/

/-- What is known of a gain that is the quotient of two doubles, for a loop that is accepted. Nothing
keeps the quotient in range unless the parameters are moderate. -/
structure SoundGain (s : LoopSpec Float) (gain numerator denominator : Float) : Prop where
  eq_div : gain = numerator / denominator
  denominator_not_le : 0.0 < s.gain → ¬ denominator ≤ 0.0
  not_negative : 0.0 < s.gain → ¬ gain < 0.0
  finite_iff : gain.isFinite = true ↔ FiniteQuotient numerator denominator
  positive_iff : (gain.isFinite = true ∧ 0.0 < gain) ↔ PositiveQuotient numerator denominator
  moderate : s.Moderate → gain.isFinite = true ∧ (0.0 < s.gain → 0.0 < gain)

/-- Both gains are those of the loop. -/
def FilterGains.SoundFor (g : FilterGains Float) (s : LoopSpec Float) : Prop :=
  ∃ w, s.naturalFrequency = .ok w ∧
    SoundGain s g.proportional (s.proportionalNumerator w) (s.gainDenominator w) ∧
    SoundGain s g.integral (s.integralNumerator w) (s.gainDenominator w)

theorem SoundGain.of_div {s : LoopSpec Float} {x y : Float} {i j k l : ℤ} (hx : AtLeast 0 x)
    (hy : 0.0 < s.gain → AtLeast (2 ^ (-1072 : ℤ)) y) (hxs : s.Moderate → InBinades x i j)
    (hys : s.Moderate → InBinades y k l) (hlow : -1074 ≤ i - l) (hhigh : j - k < 1024) :
    SoundGain s (x / y) x y := by
  have hpos : (0 : ℝ) < 2 ^ (-1072 : ℤ) := zpow_pos (by norm_num) _
  have hgain (hk : 0.0 < s.gain) : AtLeast 0 (x / y) := hx.div (hy hk) hpos
  refine ⟨rfl, fun hk => (hy hk).not_le hpos, fun hk => (hgain hk).not_lt, isFinite_div_iff x y,
    isFinite_div_pos_iff x y, fun hmoderate => ?_⟩
  have hsize := (hxs hmoderate).div (hys hmoderate) hlow hhigh
  exact ⟨hsize.isFinite, fun hk => hsize.pos (hgain hk)⟩

theorem LoopSpec.soundFor_of_digitalFilter {s : LoopSpec Float} {g : FilterGains Float}
    (h : s.digitalFilter = .ok g) : g.SoundFor s := by
  obtain ⟨hrate, w, hw, rfl⟩ := eq_div_of_digitalFilter h
  obtain ⟨-, hdamping, -⟩ := naturalFrequency_eq_ok_iff.mp hw
  have hf0 := naturalFrequency_nonneg hw
  have hdenominator (hk : 0.0 < s.gain) := gainDenominator_atLeast hdamping hrate hf0 hk
  have hdenominator' (hmoderate : s.Moderate) := gainDenominator_inBinades hmoderate hrate hw
  have hproportional : SoundGain s _ (s.proportionalNumerator w) (s.gainDenominator w) :=
    .of_div (proportionalNumerator_nonneg hdamping hrate hf0) hdenominator
      (fun hmoderate => proportionalNumerator_inBinades hmoderate hw) hdenominator'
      (by norm_num) (by norm_num)
  have hintegral : SoundGain s _ (s.integralNumerator w) (s.gainDenominator w) :=
    .of_div (integralNumerator_nonneg hrate hf0) hdenominator
      (fun hmoderate => integralNumerator_inBinades hmoderate hw) hdenominator'
      (by norm_num) (by norm_num)
  exact ⟨w, hw, hproportional, hintegral⟩

namespace ChannelSpec

theorem exists_digitalFilter_of_check {R : Type} [Scalar R] {s : ChannelSpec R}
    (h : s.check = .ok ()) (loop : Loop) : ∃ g, (s.get loop).digitalFilter = .ok g := by
  unfold check at h
  split at h
  · cases h
  · next g hg =>
    split at h
    · cases h
    · next g' hg' =>
      cases loop with
      | carrier => exact ⟨g, hg⟩
      | code => exact ⟨g', hg'⟩

theorem check_of_ofText {text : String} {s : ChannelSpec Float} (h : ofText text = .ok s) :
    s.check = .ok () := by
  unfold ofText at h
  split at h
  · cases h
  · split at h
    · cases h
    · next hcheck =>
      cases h
      exact hcheck

/-- The gains of a loop that is accepted, by itself, in a channel or in the text of one, are never
negative for a positive gain of the loop, and nothing is divided by zero. They are finite, and
positive, just as far as the quotients of their numerators and denominators are in range. If no
parameter is below `1e-18` or above `1e18`, then they are finite, and positive for a positive gain
of the loop. -/
theorem gains_of_accepted (l : LoopSpec Float) (s : ChannelSpec Float) :
    (∀ g, l.digitalFilter = .ok g → g.SoundFor l) ∧
      (s.check = .ok () → ∀ loop,
        ∃ g, (s.get loop).digitalFilter = .ok g ∧ g.SoundFor (s.get loop)) ∧
      ∀ text, ofText text = .ok s → ∀ loop,
        ∃ g, (s.get loop).digitalFilter = .ok g ∧ g.SoundFor (s.get loop) := by
  have hcheck (h : s.check = .ok ()) (loop : Loop) :
      ∃ g, (s.get loop).digitalFilter = .ok g ∧ g.SoundFor (s.get loop) := by
    obtain ⟨g, hg⟩ := exists_digitalFilter_of_check h loop
    exact ⟨g, hg, LoopSpec.soundFor_of_digitalFilter hg⟩
  exact ⟨fun g => LoopSpec.soundFor_of_digitalFilter, hcheck,
    fun text h => hcheck (check_of_ofText h)⟩

/-! ### Texts that give a bandwidth -/

/-- The standard channel with another bandwidth of the carrier loop. -/
def ofBandwidth (x : Float) : ChannelSpec Float :=
  ⟨{ LoopSpec.standard with bandwidth := x }, (standard : ChannelSpec Float).code⟩

/-- The value of a text that gives the bandwidth of the carrier loop and nothing else. -/
def bandwidthValue (n : Json.Number) : Value :=
  .object [(some "carrier", .object [(some "bandwidth_hz", .number n)])]

theorem ofJson_bandwidthValue {n : Json.Number} {x : Float}
    (hx : (Value.number n).toFloat = .ok x) :
    ChannelSpec.ofJson (bandwidthValue n) = .ok (ofBandwidth x) := by
  have hloop : LoopSpec.ofJson (.object [(some "bandwidth_hz", .number n)]) =
      .ok { LoopSpec.standard with bandwidth := x } := by
    change Except.bind (Value.number n).toFloat _ = _
    rw [hx]
    rfl
  change Except.bind (LoopSpec.ofJson (.object [(some "bandwidth_hz", .number n)])) _ = _
  rw [hloop]
  rfl

theorem ofText_eq_ofBandwidth {text : String} {n : Json.Number} {x : Float}
    (htext : Json.parse text = .ok (bandwidthValue n)) (hn : n.toFloat? = some x)
    (hmeets : (ofBandwidth x).failing? = none) :
    ofText text = .ok (ofBandwidth x) := by
  have hx : (Value.number n).toFloat = .ok x := by
    rw [Value.toFloat, hn]
  have hparse : parse text = .ok (ofBandwidth x) := by
    rw [parse, htext]
    exact ofJson_bandwidthValue hx
  rw [ofText_eq hparse, hmeets]

/-- A carrier loop of 25 Hz, and the standard code loop. -/
def ordinaryText : String := "\x7b\"carrier\":\x7b\"bandwidth_hz\":25\x7d\x7d"

/-- A bandwidth so large that the eightfold is infinite. -/
def wideText : String := "\x7b\"carrier\":\x7b\"bandwidth_hz\":1e308\x7d\x7d"

/-- A loop that is so slow that the square of its frequency is zero, though its updates are as
slow. -/
def slowLoop : LoopSpec Float := ⟨1e-170, 0.7, 1.0, 1e-170⟩

theorem ofText_ordinaryText : ofText ordinaryText = .ok (ofBandwidth 25.0) :=
  ofText_eq_ofBandwidth (n := ⟨false, ['2', '5'], [], none⟩) (by cbv) (by decide +kernel)
    (by decide +kernel)

theorem ofText_wideText : ofText wideText = .ok (ofBandwidth 1e308) :=
  ofText_eq_ofBandwidth (n := ⟨false, ['1'], [], some 308⟩) (by cbv) (by decide +kernel)
    (by decide +kernel)

theorem moderate_ofBandwidth_ordinary (loop : Loop) : ((ofBandwidth 25.0).get loop).Moderate := by
  intro field
  cases loop <;> cases field <;> decide +kernel

/-- Both loops of the channel that a text with an ordinary bandwidth gives have gains that are
finite and positive. -/
theorem gains_of_accepted_ordinary :
    ofText ordinaryText = .ok (ofBandwidth 25.0) ∧
      ∀ loop, ∃ g, ((ofBandwidth 25.0).get loop).digitalFilter = .ok g ∧
        (g.proportional.isFinite = true ∧ 0.0 < g.proportional) ∧
        g.integral.isFinite = true ∧ 0.0 < g.integral := by
  refine ⟨ofText_ordinaryText, fun loop => ?_⟩
  obtain ⟨g, hg, w, -, hproportional, hintegral⟩ :=
    (gains_of_accepted .standard (ofBandwidth 25.0)).2.2 ordinaryText ofText_ordinaryText loop
  have hgain : 0.0 < ((ofBandwidth 25.0).get loop).gain := by
    cases loop <;> decide +kernel
  obtain ⟨hfinite, hpositive⟩ := hproportional.moderate (moderate_ofBandwidth_ordinary loop)
  obtain ⟨hfinite', hpositive'⟩ := hintegral.moderate (moderate_ofBandwidth_ordinary loop)
  exact ⟨g, hg, ⟨hfinite, hpositive hgain⟩, hfinite', hpositive' hgain⟩

/-- A text and a loop that are accepted. The gains of the carrier loop of the text are undefined and
the integral gain of the other loop is zero, though the gain of either loop is positive. -/
theorem degenerate_gains_of_accepted :
    (ofText wideText = .ok (ofBandwidth 1e308) ∧ 0.0 < (ofBandwidth 1e308).carrier.gain ∧
      ∃ g, (ofBandwidth 1e308).carrier.digitalFilter = .ok g ∧
        g.proportional.isNaN = true ∧ g.integral.isNaN = true) ∧
    0.0 < slowLoop.gain ∧
      ∃ g, slowLoop.digitalFilter = .ok g ∧ 0.0 < g.proportional ∧
        (g.integral == 0.0) = true := by
  constructor
  · obtain ⟨g, hg⟩ := exists_digitalFilter_of_check (check_of_ofText ofText_wideText) .carrier
    obtain ⟨-, w, hw, rfl⟩ := LoopSpec.eq_div_of_digitalFilter hg
    obtain ⟨-, -, rfl⟩ := LoopSpec.naturalFrequency_eq_ok_iff.mp hw
    exact ⟨ofText_wideText, by decide +kernel, _, hg, by decide +kernel, by decide +kernel⟩
  · have hmeets : slowLoop.failing? = none := by decide +kernel
    obtain ⟨g, hg⟩ := LoopSpec.exists_digitalFilter hmeets
    obtain ⟨-, w, hw, rfl⟩ := LoopSpec.eq_div_of_digitalFilter hg
    obtain ⟨-, -, rfl⟩ := LoopSpec.naturalFrequency_eq_ok_iff.mp hw
    exact ⟨by decide +kernel, _, hg, by decide +kernel, by decide +kernel⟩

end ChannelSpec

end SatNav
