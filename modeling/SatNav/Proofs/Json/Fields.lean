import SatNav.Json.Record

/-!
# The fields that a record has

`Value.Gives` says that a value gives a field a value: an object by a member of that name,
wherever it stands, and an array by the item in its place. `Value.IsRecord` is what it takes for
`Record.ofValue` to give a record, and the fields of that record are the ones that are given.
-/

namespace SatNav.Json

/-- A field of a record has a value, in an object by its name and in an array by its place. -/
def Value.Gives (v : Value) (names : List String) (name : String) (w : Value) : Prop :=
  match v with
  | .object members => (some name, w) ∈ members
  | .array items => (name, w) ∈ names.zip items
  | _ => False

/-- An object that names the fields of a record at most once, among others, or an array that is not
too long for it. -/
def Value.IsRecord (v : Value) (names : List String) : Prop :=
  match v with
  | .object members =>
    (∀ m ∈ members, m.1 ≠ none) ∧
      ∀ name ∈ names, members.countP (fun m => decide (m.1 = some name)) ≤ 1
  | .array items => items.length ≤ names.length
  | _ => False

namespace Record

/-! ### Objects -/

theorem mem_valuesOf {name : String} {members : List (Text × Value)} {w : Value} :
    w ∈ valuesOf name members ↔ (some name, w) ∈ members := by
  unfold valuesOf
  rw [List.mem_filterMap]
  constructor
  · rintro ⟨⟨t, u⟩, hmem, hw⟩
    split at hw
    · next h =>
      cases h
      cases hw
      exact hmem
    · cases hw
  · exact fun hmem => ⟨_, hmem, if_pos rfl⟩

theorem length_valuesOf (name : String) (members : List (Text × Value)) :
    (valuesOf name members).length = members.countP fun m => decide (m.1 = some name) := by
  unfold valuesOf
  induction members with
  | nil => rfl
  | cons m members ih =>
    rw [List.filterMap_cons, List.countP_cons, ← ih]
    by_cases h : m.1 = some name
    · simp [h]
    · simp [h]

theorem any_isNone_eq_false {members : List (Text × Value)} (h : ∀ m ∈ members, m.1 ≠ none) :
    members.any (·.1.isNone) = false := by
  rw [List.any_eq_false]
  exact fun m hm hnone => h m hm (Option.isNone_iff_eq_none.mp hnone)

variable {members : List (Text × Value)} (htexts : members.any (·.1.isNone) = false)
include htexts

theorem ofMembers_nil : ofMembers [] members = .ok [] := by
  rw [ofMembers, htexts]
  rfl

theorem ofMembers_cons (name : String) (names : List String) :
    ofMembers (name :: names) members =
      (ofMembers names members).bind fun record =>
        match valuesOf name members with
        | [] => .ok record
        | [v] => .ok ((name, v) :: record)
        | _ => .error (.repeatedField name) := by
  rw [ofMembers, ofMembers, htexts, List.foldrM_cons]
  rfl

theorem exists_ofMembers {names : List String}
    (honce : ∀ name ∈ names, members.countP (fun m => decide (m.1 = some name)) ≤ 1) :
    ∃ record, ofMembers names members = .ok record ∧
      ∀ name w, record.lookup name = some w ↔ name ∈ names ∧ (some name, w) ∈ members := by
  induction names with
  | nil => exact ⟨[], ofMembers_nil htexts, by simp⟩
  | cons first names ih =>
    obtain ⟨record, hrecord, hlookup⟩ := ih fun name h => honce name (List.mem_cons_of_mem _ h)
    have hlength := length_valuesOf first members ▸ honce first List.mem_cons_self
    have hmem (w : Value) : w ∈ valuesOf first members ↔ (some first, w) ∈ members := mem_valuesOf
    rw [ofMembers_cons htexts, hrecord]
    match h : valuesOf first members with
    | [] =>
      rw [h] at hmem
      refine ⟨record, rfl, fun name w => ?_⟩
      rw [hlookup, List.mem_cons]
      constructor
      · exact fun ⟨hname, hgiven⟩ => ⟨.inr hname, hgiven⟩
      · rintro ⟨rfl | hname, hgiven⟩
        · exact absurd ((hmem w).mpr hgiven) List.not_mem_nil
        · exact ⟨hname, hgiven⟩
    | [v] =>
      rw [h] at hmem
      refine ⟨(first, v) :: record, rfl, fun name w => ?_⟩
      rw [List.lookup_cons]
      by_cases hname : name = first
      · subst hname
        simp [← hmem, eq_comm]
      · simp [beq_eq_false_iff_ne.mpr hname, hname, hlookup]
    | _ :: _ :: _ => simp [h] at hlength

end Record

/-! ### Arrays -/

theorem lookup_zip {names : List String} (hnodup : names.Nodup) (items : List Value)
    (name : String) (w : Value) :
    (names.zip items).lookup name = some w ↔ (name, w) ∈ names.zip items := by
  induction names generalizing items with
  | nil => simp
  | cons first names ih =>
    obtain ⟨hfirst, hrest⟩ := List.nodup_cons.mp hnodup
    cases items with
    | nil => simp
    | cons item items =>
      rw [List.zip_cons_cons, List.lookup_cons, List.mem_cons, ← ih hrest]
      by_cases hname : name = first
      · subst hname
        have habsent : ¬ (names.zip items).lookup name = some w :=
          fun h => hfirst (List.of_mem_zip ((ih hrest items).mp h)).1
        simp [habsent, eq_comm]
      · simp [beq_eq_false_iff_ne.mpr hname, hname]

/-! ### Records -/

theorem exists_record {v : Value} {names : List String} (hnodup : names.Nodup)
    (h : v.IsRecord names) :
    ∃ record, Record.ofValue names v = .ok record ∧
      ∀ name ∈ names, ∀ w, record.lookup name = some w ↔ v.Gives names name w := by
  cases v with
  | object members =>
    obtain ⟨htexts, honce⟩ := h
    obtain ⟨record, hrecord, hlookup⟩ :=
      Record.exists_ofMembers (Record.any_isNone_eq_false htexts) honce
    refine ⟨record, hrecord, fun name hname w => ?_⟩
    rw [hlookup, and_iff_right hname]
    rfl
  | array items =>
    exact ⟨names.zip items, if_pos h, fun name _ w => lookup_zip hnodup items name w⟩
  | _ => exact h.elim

/-- A field that is given is read, and one that is not has the standard value. -/
theorem exists_getOr {α : Type} {v : Value} {names : List String} {record : Record} {name : String}
    (hlookup : ∀ w, record.lookup name = some w ↔ v.Gives names name w)
    {read : Value → Except Error α} (hread : ∀ w, v.Gives names name w → ∃ x, read w = .ok x)
    (standard : α) :
    ∃ x, record.getOr name standard read = .ok x ∧
      (∀ w, v.Gives names name w → read w = .ok x) ∧
      ((∀ w, ¬ v.Gives names name w) → x = standard) := by
  unfold Record.getOr
  cases h : record.lookup name with
  | none =>
    have habsent (w : Value) : ¬ v.Gives names name w := by
      rw [← hlookup, h]
      exact nofun
    exact ⟨standard, rfl, fun w hw => absurd hw (habsent w), fun _ => rfl⟩
  | some w =>
    have hgiven := (hlookup w).mp h
    obtain ⟨x, hx⟩ := hread w hgiven
    refine ⟨x, hx, fun u hu => ?_, fun hnone => absurd hgiven (hnone w)⟩
    obtain rfl : w = u := Option.some.inj (h.symm.trans ((hlookup u).mpr hu))
    exact hx

end SatNav.Json
