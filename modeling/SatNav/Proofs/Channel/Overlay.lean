import Mathlib
import SatNav.Channel.SpecFile
import SatNav.Proofs.Json.Fields

/-!
# Specifications that leave fields out

A channel specification in JSON lays what it says over standard values, at two levels. A loop that
is there takes what it lacks from the standard loop, also where it is the code loop; a loop that is
not there is that of the standard channel. `LoopSpec.ReadFrom` and `ChannelSpec.ReadFrom` say this
of a value by the fields that it gives, so neither the order of the fields nor fields with other
names have a part in it.

`LoopSpec.checked` are the rules that a loop has to meet, in the order in which they are looked at.
-/

namespace SatNav

open Json (Value)

/-! ### Fields -/

inductive LoopField
  | bandwidth
  | damping
  | gain
  | updateRate

/-- The name of a field of a loop in JSON. -/
def LoopField.name : LoopField → String
  | bandwidth => "bandwidth_hz"
  | damping => "damping_ratio"
  | gain => "loop_gain"
  | updateRate => "update_rate_hz"

inductive Loop
  | carrier
  | code

/-- The name of a loop of a channel in JSON. -/
def Loop.name : Loop → String
  | carrier => "carrier"
  | code => "code"

namespace LoopSpec

def get {R : Type} (s : LoopSpec R) : LoopField → R
  | .bandwidth => s.bandwidth
  | .damping => s.damping
  | .gain => s.gain
  | .updateRate => s.updateRate

def ofFields {R : Type} (x : LoopField → R) : LoopSpec R :=
  ⟨x .bandwidth, x .damping, x .gain, x .updateRate⟩

@[simp] theorem get_ofFields {R : Type} (x : LoopField → R) (field : LoopField) :
    (ofFields x).get field = x field := by
  cases field <;> rfl

theorem ext_get {R : Type} {s t : LoopSpec R} (h : ∀ field, s.get field = t.get field) : s = t := by
  have : s.get = t.get := funext h
  exact congrArg ofFields this

/-- The names of the fields, in the order of an array. -/
def fieldNames : List String := ["bandwidth_hz", "damping_ratio", "loop_gain", "update_rate_hz"]

/-- A value has a field, and its value there is `w`. -/
def Has (v : Value) (field : LoopField) (w : Value) : Prop := v.Gives fieldNames field.name w

/-- A record whose fields are numbers, as far as it has them. -/
def IsForm (v : Value) : Prop :=
  v.IsRecord fieldNames ∧ ∀ field w, Has v field w → ∃ x, w.toFloat = .ok x

/-- Each field is as the value has it, or standard if the value does not have it. -/
def ReadFrom (s : LoopSpec Float) (v : Value) : Prop :=
  ∀ field, (∀ w, Has v field w → w.toFloat = .ok (s.get field)) ∧
    ((∀ w, ¬ Has v field w) → s.get field = (standard : LoopSpec Float).get field)

theorem ofJson_eq_ok {v : Value} {record : Json.Record} {s : LoopSpec Float}
    (hrecord : Json.Record.ofValue fieldNames v = .ok record)
    (hfields : ∀ field : LoopField, record.getOr field.name
      ((standard : LoopSpec Float).get field) Value.toFloat = .ok (s.get field)) :
    LoopSpec.ofJson v = .ok s := by
  have hbandwidth := hfields .bandwidth
  have hdamping := hfields .damping
  have hgain := hfields .gain
  have hrate := hfields .updateRate
  simp only [LoopField.name, get] at hbandwidth hdamping hgain hrate
  unfold fieldNames at hrecord
  simp only [LoopSpec.ofJson, hrecord, hbandwidth, hdamping, hgain, hrate, bind, Except.bind]
  rfl

theorem exists_ofJson {v : Value} (h : IsForm v) :
    ∃ s, LoopSpec.ofJson v = .ok s ∧ s.ReadFrom v := by
  obtain ⟨hrecord, hread⟩ := h
  have hnodup : fieldNames.Nodup := by decide
  obtain ⟨record, hofValue, hlookup⟩ := Json.exists_record hnodup hrecord
  have hfield (field : LoopField) := Json.exists_getOr
    (hlookup field.name (by cases field <;> decide)) (hread field)
    ((standard : LoopSpec Float).get field)
  choose x hx hread using hfield
  refine ⟨ofFields x, ofJson_eq_ok hofValue fun field => ?_, fun field => ?_⟩
  · rw [get_ofFields]
    exact hx field
  · rw [get_ofFields]
    exact hread field

/-- The fields of a value, and standard values, leave no choice. -/
theorem ReadFrom.unique {s t : LoopSpec Float} {v : Value} (hs : s.ReadFrom v)
    (ht : t.ReadFrom v) : s = t := by
  refine ext_get fun field => ?_
  by_cases hgiven : ∃ w, Has v field w
  · obtain ⟨w, hw⟩ := hgiven
    exact Except.ok.inj (((hs field).1 w hw).symm.trans ((ht field).1 w hw))
  · rw [not_exists] at hgiven
    rw [(hs field).2 hgiven, (ht field).2 hgiven]

/-- Two values have the same fields. -/
def SameFields (v w : Value) : Prop := ∀ field u, Has v field u ↔ Has w field u

theorem ReadFrom.of_sameFields {s : LoopSpec Float} {v w : Value} (h : SameFields v w)
    (hs : s.ReadFrom w) : s.ReadFrom v := by
  intro field
  obtain ⟨hgiven, habsent⟩ := hs field
  exact ⟨fun u hu => hgiven u ((h field u).mp hu),
    fun hnone => habsent fun u hu => hnone u ((h field u).mpr hu)⟩

end LoopSpec

namespace ChannelSpec

def get {R : Type} (s : ChannelSpec R) : Loop → LoopSpec R
  | .carrier => s.carrier
  | .code => s.code

def ofLoops {R : Type} (x : Loop → LoopSpec R) : ChannelSpec R := ⟨x .carrier, x .code⟩

@[simp] theorem get_ofLoops {R : Type} (x : Loop → LoopSpec R) (loop : Loop) :
    (ofLoops x).get loop = x loop := by
  cases loop <;> rfl

theorem ext_get {R : Type} {s t : ChannelSpec R} (h : ∀ loop, s.get loop = t.get loop) :
    s = t := by
  have : s.get = t.get := funext h
  exact congrArg ofLoops this

/-- The names of the loops, in the order of an array. -/
def loopNames : List String := ["carrier", "code"]

/-- A value has a loop, and its value there is `w`. -/
def Has (v : Value) (loop : Loop) (w : Value) : Prop := v.Gives loopNames loop.name w

/-- A record whose loops are records of numbers, as far as it has them. -/
def IsForm (v : Value) : Prop :=
  v.IsRecord loopNames ∧ ∀ loop w, Has v loop w → LoopSpec.IsForm w

/-- Each loop is as the value has it, or that of the standard channel if the value does not have
it. -/
def ReadFrom (s : ChannelSpec Float) (v : Value) : Prop :=
  ∀ loop, (∀ w, Has v loop w → (s.get loop).ReadFrom w) ∧
    ((∀ w, ¬ Has v loop w) → s.get loop = (standard : ChannelSpec Float).get loop)

theorem ofJson_eq_ok {v : Value} {record : Json.Record} {s : ChannelSpec Float}
    (hrecord : Json.Record.ofValue loopNames v = .ok record)
    (hloops : ∀ loop : Loop, record.getOr loop.name
      ((standard : ChannelSpec Float).get loop) LoopSpec.ofJson = .ok (s.get loop)) :
    ChannelSpec.ofJson v = .ok s := by
  have hcarrier := hloops .carrier
  have hcode := hloops .code
  simp only [Loop.name, get] at hcarrier hcode
  unfold loopNames at hrecord
  simp only [ChannelSpec.ofJson, hrecord, hcarrier, hcode, bind, Except.bind]
  rfl

theorem exists_ofJson {v : Value} (h : IsForm v) :
    ∃ s, ChannelSpec.ofJson v = .ok s ∧ s.ReadFrom v := by
  obtain ⟨hrecord, hloops⟩ := h
  have hnodup : loopNames.Nodup := by decide
  obtain ⟨record, hofValue, hlookup⟩ := Json.exists_record hnodup hrecord
  have hread (loop : Loop) (w : Value) (hw : Has v loop w) : ∃ x, LoopSpec.ofJson w = .ok x :=
    have ⟨x, hx, _⟩ := LoopSpec.exists_ofJson (hloops loop w hw)
    ⟨x, hx⟩
  have hloop (loop : Loop) := Json.exists_getOr
    (hlookup loop.name (by cases loop <;> decide)) (hread loop)
    ((standard : ChannelSpec Float).get loop)
  choose x hx hgiven habsent using hloop
  refine ⟨ofLoops x, ofJson_eq_ok hofValue fun loop => ?_, fun loop => ?_⟩
  · rw [get_ofLoops]
    exact hx loop
  · rw [get_ofLoops]
    refine ⟨fun w hw => ?_, habsent loop⟩
    obtain ⟨s, hs, hfrom⟩ := LoopSpec.exists_ofJson (hloops loop w hw)
    rwa [Except.ok.inj ((hgiven loop w hw).symm.trans hs)]

theorem ReadFrom.unique {s t : ChannelSpec Float} {v : Value} (hs : s.ReadFrom v)
    (ht : t.ReadFrom v) : s = t := by
  refine ext_get fun loop => ?_
  by_cases hgiven : ∃ w, Has v loop w
  · obtain ⟨w, hw⟩ := hgiven
    exact ((hs loop).1 w hw).unique ((ht loop).1 w hw)
  · rw [not_exists] at hgiven
    rw [(hs loop).2 hgiven, (ht loop).2 hgiven]

/-- Two values have the same loops, and these the same fields. -/
def SameFields (v w : Value) : Prop :=
  ∀ loop, ((∃ u, Has v loop u) ↔ ∃ u, Has w loop u) ∧
    ∀ u u', Has v loop u → Has w loop u' → LoopSpec.SameFields u u'

theorem ReadFrom.of_sameFields {s : ChannelSpec Float} {v w : Value} (h : SameFields v w)
    (hs : s.ReadFrom w) : s.ReadFrom v := by
  intro loop
  obtain ⟨hsame, hfields⟩ := h loop
  obtain ⟨hgiven, habsent⟩ := hs loop
  constructor
  · intro u hu
    obtain ⟨u', hu'⟩ := hsame.mp ⟨u, hu⟩
    exact (hgiven u' hu').of_sameFields (hfields u u' hu hu')
  · intro hnone
    refine habsent fun u hu => ?_
    obtain ⟨u', hu'⟩ := hsame.mpr ⟨u, hu⟩
    exact hnone u' hu'

end ChannelSpec

/-! ### Rules -/

section Rules

variable {R : Type} [Scalar R]

namespace LoopSpec

/-- The parameters of a loop that have a rule, in the order in which they are looked at. -/
def checked : List BadParameter := [.gain, .updateRate, .bandwidth, .damping]

/-- A loop meets the rule for a parameter. -/
def meets (s : LoopSpec R) : BadParameter → Bool
  | .gain => Scalar.isFinite s.gain && !(s.gain == 0.0)
  | .updateRate => decide (0.0 < s.updateRate)
  | .bandwidth => decide (0.0 < s.bandwidth)
  | .damping => decide (0.0 < s.damping)
  | _ => true

/-- The first rule that a loop does not meet. -/
def failing? (s : LoopSpec R) : Option BadParameter := checked.find? fun p => !s.meets p

theorem not_meets_gain_iff (s : LoopSpec R) :
    (s.gain == 0.0 ∨ ¬ Scalar.isFinite s.gain) ↔ ¬ s.meets .gain := by
  cases h : s.gain == 0.0 <;> cases h' : Scalar.isFinite s.gain <;> simp [meets, h, h']

theorem failing?_eq (s : LoopSpec R) :
    s.failing? =
      if ¬ s.meets .gain then some .gain
      else if ¬ s.meets .updateRate then some .updateRate
      else if ¬ s.meets .bandwidth then some .bandwidth
      else if ¬ s.meets .damping then some .damping
      else none := by
  unfold failing? checked
  simp only [List.find?_cons, List.find?_nil]
  cases s.meets .gain <;> cases s.meets .updateRate <;> cases s.meets .bandwidth <;>
    cases s.meets .damping <;> rfl

/-- A loop has a digital filter unless it fails a rule, and then the first such rule is the
fault. -/
theorem digitalFilter_eq (s : LoopSpec R) :
    match s.failing? with
    | some p => s.digitalFilter = .error (.badParameter p)
    | none => ∃ gains, s.digitalFilter = .ok gains := by
  have hpositive (x : R) : (¬ (0.0 : R) < x) ↔ ¬ decide ((0.0 : R) < x) = true := by
    rw [decide_eq_true_iff]
  rw [failing?_eq, digitalFilter, naturalFrequency]
  by_cases hgain : s.meets .gain
  · rw [if_neg (not_not.mpr hgain), if_neg (mt (not_meets_gain_iff s).mp (not_not.mpr hgain))]
    by_cases hrate : s.meets .updateRate
    · rw [if_neg (not_not.mpr hrate), if_neg (mt (hpositive _).mp (not_not.mpr hrate))]
      by_cases hbandwidth : s.meets .bandwidth
      · rw [if_neg (not_not.mpr hbandwidth), if_neg (mt (hpositive _).mp (not_not.mpr hbandwidth))]
        by_cases hdamping : s.meets .damping
        · rw [if_neg (not_not.mpr hdamping), if_neg (mt (hpositive _).mp (not_not.mpr hdamping))]
          exact ⟨_, rfl⟩
        · rw [if_pos hdamping, if_pos ((hpositive _).mpr hdamping)]
      · rw [if_pos hbandwidth, if_pos ((hpositive _).mpr hbandwidth)]
    · rw [if_pos hrate, if_pos ((hpositive _).mpr hrate)]
  · rw [if_pos hgain, if_pos ((not_meets_gain_iff s).mpr hgain)]

end LoopSpec

namespace ChannelSpec

/-- The first rule that a loop does not meet, of the carrier loop if there is one. -/
def failing? (s : ChannelSpec R) : Option BadParameter := s.carrier.failing?.or s.code.failing?

theorem check_eq (s : ChannelSpec R) :
    s.check =
      match s.failing? with
      | some p => .error (.badParameter p)
      | none => .ok () := by
  have hcarrier := s.carrier.digitalFilter_eq
  have hcode := s.code.digitalFilter_eq
  unfold check failing?
  cases hc : s.carrier.failing? with
  | some p =>
    rw [hc] at hcarrier
    rw [hcarrier]
    rfl
  | none =>
    rw [hc] at hcarrier
    obtain ⟨gains, hgains⟩ := hcarrier
    rw [hgains]
    cases hd : s.code.failing? with
    | some p =>
      rw [hd] at hcode
      rw [hcode]
      rfl
    | none =>
      rw [hd] at hcode
      obtain ⟨gains', hgains'⟩ := hcode
      rw [hgains']
      rfl

theorem failing?_eq_none_iff (s : ChannelSpec R) :
    s.failing? = none ↔ ∀ loop, ∀ p ∈ LoopSpec.checked, (s.get loop).meets p = true := by
  unfold failing? LoopSpec.failing?
  rw [Option.or_eq_none_iff, List.find?_eq_none, List.find?_eq_none]
  simp only [Bool.not_eq_true', Bool.not_eq_false]
  refine ⟨fun h loop => ?_, fun h => ⟨h .carrier, h .code⟩⟩
  cases loop with
  | carrier => exact h.1
  | code => exact h.2

end ChannelSpec

end Rules

/-! ### Specifications from texts -/

namespace ChannelSpec

theorem ofText_eq {text : String} {s : ChannelSpec Float} (h : parse text = .ok s) :
    ofText text =
      match s.failing? with
      | some p => .error (.invalid (.badParameter p))
      | none => .ok s := by
  rw [ofText, h]
  dsimp only
  rw [check_eq]
  cases s.failing? <;> rfl

theorem ofText_eq_ok_iff {text : String} {s : ChannelSpec Float} (h : parse text = .ok s) :
    ofText text = .ok s ↔ ∀ loop, ∀ p ∈ LoopSpec.checked, (s.get loop).meets p = true := by
  rw [ofText_eq h, ← failing?_eq_none_iff]
  cases s.failing? <;> simp

theorem exists_parse {text : String} {v : Value} (htext : Json.parse text = .ok v)
    (hform : IsForm v) : ∃ s, parse text = .ok s ∧ s.ReadFrom v := by
  obtain ⟨s, hs, hread⟩ := exists_ofJson hform
  exact ⟨s, by rw [parse, htext]; exact hs, hread⟩

/-- A text that holds a record of loops gives the specification that has the fields of the text and
standard values for the others, and no other specification has. A text with the same fields gives
the same. The specification is accepted if both loops meet all rules, and refused for the first
rule that is not met otherwise. -/
theorem ofText_overlay {text : String} {v : Value} (htext : Json.parse text = .ok v)
    (hform : IsForm v) :
    ∃ s : ChannelSpec Float,
      parse text = .ok s ∧
        (∀ other : ChannelSpec Float, other.ReadFrom v ↔ other = s) ∧
        (∀ (text' : String) (v' : Value), Json.parse text' = .ok v' → IsForm v' →
          SameFields v v' → parse text' = .ok s ∧ ofText text' = ofText text) ∧
        (ofText text = .ok s ↔ ∀ loop, ∀ p ∈ LoopSpec.checked, (s.get loop).meets p = true) ∧
        ∀ p, s.carrier.failing?.or s.code.failing? = some p →
          ofText text = .error (.invalid (.badParameter p)) := by
  obtain ⟨s, hparse, hread⟩ := exists_parse htext hform
  refine ⟨s, hparse, fun other => ⟨fun h => h.unique hread, fun h => h ▸ hread⟩, ?_,
    ofText_eq_ok_iff hparse, fun p hp => ?_⟩
  · intro text' v' htext' hform' hsame
    obtain ⟨s', hparse', hread'⟩ := exists_parse htext' hform'
    obtain rfl := (hread'.of_sameFields hsame).unique hread
    exact ⟨hparse', by rw [ofText_eq hparse, ofText_eq hparse']⟩
  · rw [ofText_eq hparse, failing?, hp]

/-- A narrower code loop, among fields that no specification has. -/
def narrowText : String :=
  "\x7b\"x\":[null],\"code\":\x7b\"y\":\"z\",\"bandwidth_hz\":2\x7d\x7d"

def narrowLoop : Value :=
  .object [(some "y", .text (some "z")), (some "bandwidth_hz", .number ⟨false, ['2'], [], none⟩)]

def narrowValue : Value := .object [(some "x", .array [.null]), (some "code", narrowLoop)]

theorem has_narrowLoop_iff {field : LoopField} {w : Value} :
    LoopSpec.Has narrowLoop field w ↔
      field = .bandwidth ∧ w = .number ⟨false, ['2'], [], none⟩ := by
  cases field <;> simp [LoopSpec.Has, Value.Gives, narrowLoop, LoopField.name]

theorem has_narrowValue_iff {loop : Loop} {w : Value} :
    Has narrowValue loop w ↔ loop = .code ∧ w = narrowLoop := by
  cases loop <;> simp [Has, Value.Gives, narrowValue, Loop.name]

theorem toFloat_two : (Value.number ⟨false, ['2'], [], none⟩).toFloat = .ok 2.0 := by
  have htwo : (⟨false, ['2'], [], none⟩ : Json.Number).toFloat? = some 2.0 := by
    decide +kernel
  rw [Value.toFloat, htwo]

/-- The standard loop, with half the bandwidth of the standard code loop. -/
def narrow : ChannelSpec Float := ⟨.standard, { LoopSpec.standard with bandwidth := 2.0 }⟩

theorem isForm_narrowValue : IsForm narrowValue := by
  refine ⟨⟨by simp, by decide⟩, fun loop w h => ?_⟩
  obtain ⟨-, rfl⟩ := has_narrowValue_iff.mp h
  refine ⟨⟨by simp, by decide⟩, fun field w h => ?_⟩
  obtain ⟨-, rfl⟩ := has_narrowLoop_iff.mp h
  exact ⟨_, toFloat_two⟩

theorem readFrom_narrowValue :
    narrow.ReadFrom narrowValue := by
  intro loop
  cases loop with
  | carrier => exact ⟨fun w h => (nomatch (has_narrowValue_iff.mp h).1),
      fun _ => by simp only [narrow, get, standard]⟩
  | code =>
    refine ⟨fun w h => ?_, fun hnone => absurd (has_narrowValue_iff.mpr ⟨rfl, rfl⟩) (hnone _)⟩
    obtain ⟨-, rfl⟩ := has_narrowValue_iff.mp h
    intro field
    refine ⟨fun w h => ?_, fun hnone => ?_⟩
    · obtain ⟨rfl, rfl⟩ := has_narrowLoop_iff.mp h
      exact toFloat_two
    · cases field with
      | bandwidth => exact absurd (has_narrowLoop_iff.mpr ⟨rfl, rfl⟩) (hnone _)
      | _ => simp only [narrow, get, LoopSpec.get]

/-- The gain of the code loop is that of a carrier loop, since it comes from the standard loop. -/
theorem ofText_overlay_narrow :
    Json.parse narrowText = .ok narrowValue ∧ IsForm narrowValue ∧
      parse narrowText = .ok narrow ∧
      ofText narrowText = .ok narrow := by
  have htext : Json.parse narrowText = .ok narrowValue := by cbv
  obtain ⟨s, hparse, hread, -, haccepted, -⟩ := ofText_overlay htext isForm_narrowValue
  obtain rfl := (hread _).mp readFrom_narrowValue
  refine ⟨htext, isForm_narrowValue, hparse, haccepted.mpr fun loop => ?_⟩
  cases loop <;> decide +kernel

end ChannelSpec

end SatNav
