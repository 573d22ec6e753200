import SatNav.Json.Value

/-!
# JSON tokens

The grammar is the strict one: blanks are space, tab, line feed
and carriage return, a number has no leading zero, no plus sign and digits on both
sides of its point, and a text has no raw control characters. Each reader returns
what follows its token, which is shorter than what it was given (`next?_length_lt`).
-/

namespace SatNav.Json

/-- A token. Literals and numbers are values already. -/
inductive Token
  | beginArray
  | endArray
  | beginObject
  | endObject
  | comma
  | colon
  | scalar (v : Value)
  | text (t : Text)

/-- A character of a text, or a UTF-16 code unit given by an escape. -/
inductive TextItem
  | char (c : Char)
  | codeUnit (n : Nat)
  deriving DecidableEq

/-- Blanks between tokens. -/
def isBlank (c : Char) : Bool := c = ' ' ∨ c = '\t' ∨ c = '\n' ∨ c = '\r'

def hexDigit? (c : Char) : Option Nat :=
  if '0' ≤ c ∧ c ≤ '9' then some (c.toNat - '0'.toNat)
  else if 'a' ≤ c ∧ c ≤ 'f' then some (c.toNat - 'a'.toNat + 10)
  else if 'A' ≤ c ∧ c ≤ 'F' then some (c.toNat - 'A'.toNat + 10)
  else none

/-- The code unit that four hexadecimal digits name. -/
def codeUnit? (a b c d : Char) : Option Nat :=
  match hexDigit? a, hexDigit? b, hexDigit? c, hexDigit? d with
  | some a, some b, some c, some d => some (((a * 16 + b) * 16 + c) * 16 + d)
  | _, _, _, _ => none

/-- What a backslash and a letter stand for. -/
def escape? : Char → Option Char
  | '"' => some '"'
  | '\\' => some '\\'
  | '/' => some '/'
  | 'b' => some '\x08'
  | 'f' => some '\x0c'
  | 'n' => some '\n'
  | 'r' => some '\r'
  | 't' => some '\t'
  | _ => none

/-- The items of a text up to its closing quote, after those in `read`, which are in reverse. -/
def readItems? (read : List TextItem) : List Char → Option (List TextItem × List Char)
  | [] => none
  | '"' :: rest => some (read.reverse, rest)
  | '\\' :: 'u' :: a :: b :: c :: d :: rest =>
    match codeUnit? a b c d with
    | some n => readItems? (.codeUnit n :: read) rest
    | none => none
  | '\\' :: e :: rest =>
    match escape? e with
    | some c => readItems? (.char c :: read) rest
    | none => none
  | c :: rest => if c.toNat < 32 ∨ c = '\\' then none else readItems? (.char c :: read) rest

/-- Code units that stand first in a pair. -/
def isHighSurrogate (n : Nat) : Bool := 0xd800 ≤ n ∧ n < 0xdc00

/-- Code units that stand second in a pair. -/
def isLowSurrogate (n : Nat) : Bool := 0xdc00 ≤ n ∧ n < 0xe000

/-- The characters that items come to: two surrogates in a row are one character, and one without
its partner is none. -/
def joinItems? : List TextItem → Option (List Char)
  | [] => some []
  | .char c :: rest => (joinItems? rest).map (c :: ·)
  | .codeUnit n :: .codeUnit m :: rest =>
    if isHighSurrogate n then
      if isLowSurrogate m then
        (joinItems? rest).map (Char.ofNat (0x10000 + (n - 0xd800) * 0x400 + (m - 0xdc00)) :: ·)
      else none
    else if isLowSurrogate n then none
    else (joinItems? (.codeUnit m :: rest)).map (Char.ofNat n :: ·)
  | .codeUnit n :: rest =>
    if isHighSurrogate n ∨ isLowSurrogate n then none
    else (joinItems? rest).map (Char.ofNat n :: ·)

/-- The digits at the front, at least one, and what follows them. -/
def readDigits? (cs : List Char) : Option (List Char × List Char) :=
  let digits := cs.takeWhile Char.isDigit
  if digits.isEmpty then none else some (digits, cs.dropWhile Char.isDigit)

/-- The fraction at the front, if there is one. -/
def readFraction? : List Char → Option (List Char × List Char)
  | '.' :: rest => readDigits? rest
  | rest => some ([], rest)

/-- The power of ten at the front, if there is one. -/
def readExponent? : List Char → Option (Option Int × List Char)
  | [] => some (none, [])
  | c :: rest =>
    if c = 'e' ∨ c = 'E' then
      let signed := Binary64.splitSign rest
      (readDigits? signed.2).map fun (digits, rest) =>
        let n := Binary64.digitsValue digits
        (some (if signed.1 then -n else n), rest)
    else some (none, c :: rest)

/-- The number at the front, after its sign. -/
def readNumber? (negative : Bool) (cs : List Char) : Option (Number × List Char) :=
  match readDigits? cs with
  | none => none
  | some (whole, rest) =>
    if whole.head? = some '0' ∧ whole.length ≠ 1 then none
    else
      match readFraction? rest with
      | none => none
      | some (fraction, rest) =>
        (readExponent? rest).map fun (power, rest) => (⟨negative, whole, fraction, power⟩, rest)

def next? : List Char → Option (Token × List Char)
  | '[' :: rest => some (.beginArray, rest)
  | ']' :: rest => some (.endArray, rest)
  | '{' :: rest => some (.beginObject, rest)
  | '}' :: rest => some (.endObject, rest)
  | ',' :: rest => some (.comma, rest)
  | ':' :: rest => some (.colon, rest)
  | 'n' :: 'u' :: 'l' :: 'l' :: rest => some (.scalar .null, rest)
  | 't' :: 'r' :: 'u' :: 'e' :: rest => some (.scalar (.bool true), rest)
  | 'f' :: 'a' :: 'l' :: 's' :: 'e' :: rest => some (.scalar (.bool false), rest)
  | '"' :: rest =>
    (readItems? [] rest).map fun (items, rest) =>
      (.text ((joinItems? items).map String.ofList), rest)
  | '-' :: rest => (readNumber? true rest).map fun (n, rest) => (.scalar (.number n), rest)
  | rest => (readNumber? false rest).map fun (n, rest) => (.scalar (.number n), rest)

theorem readItems?_length_lt {read : List TextItem} {cs rest : List Char} {items : List TextItem}
    (h : readItems? read cs = some (items, rest)) : rest.length < cs.length := by
  fun_induction readItems? read cs <;> simp_all <;> omega

theorem readDigits?_length_lt {cs digits rest : List Char}
    (h : readDigits? cs = some (digits, rest)) : rest.length < cs.length := by
  simp only [readDigits?, Option.ite_none_left_eq_some, Option.some.injEq, Prod.mk.injEq] at h
  obtain ⟨hne, rfl, rfl⟩ := h
  have hsplit := congrArg List.length
    (List.takeWhile_append_dropWhile (p := Char.isDigit) (l := cs))
  have hpos : 0 < (cs.takeWhile Char.isDigit).length := by
    simpa [List.length_pos_iff] using hne
  simp only [List.length_append] at hsplit
  omega

theorem readFraction?_length_le {cs digits rest : List Char}
    (h : readFraction? cs = some (digits, rest)) : rest.length ≤ cs.length := by
  unfold readFraction? at h
  split at h
  · have := readDigits?_length_lt h
    simp only [List.length_cons]
    omega
  · simp_all

theorem splitSign_length_le (cs : List Char) :
    (Binary64.splitSign cs).2.length ≤ cs.length := by
  unfold Binary64.splitSign
  split <;> simp

theorem readExponent?_length_le {cs rest : List Char} {power : Option Int}
    (h : readExponent? cs = some (power, rest)) : rest.length ≤ cs.length := by
  unfold readExponent? at h
  split at h
  · simp_all
  · next c cs =>
    split at h
    · obtain ⟨⟨digits, rest'⟩, hd, heq⟩ := Option.map_eq_some_iff.1 h
      have := readDigits?_length_lt hd
      have := splitSign_length_le cs
      simp only [Prod.mk.injEq] at heq
      simp only [List.length_cons, ← heq.2]
      omega
    · simp_all

theorem readNumber?_length_lt {negative : Bool} {cs rest : List Char} {n : Number}
    (h : readNumber? negative cs = some (n, rest)) : rest.length < cs.length := by
  unfold readNumber? at h
  split at h
  · simp at h
  · next whole rest1 h1 =>
    split at h
    · simp at h
    · split at h
      · simp at h
      · next fraction rest2 h2 =>
        obtain ⟨⟨power, rest3⟩, h3, heq⟩ := Option.map_eq_some_iff.1 h
        have := readDigits?_length_lt h1
        have := readFraction?_length_le h2
        have := readExponent?_length_le h3
        simp only [Prod.mk.injEq] at heq
        simp only [← heq.2]
        omega

/-- A token is not empty. -/
theorem next?_length_lt {cs rest : List Char} {t : Token} (h : next? cs = some (t, rest)) :
    rest.length < cs.length := by
  unfold next? at h
  split at h
  case h_10 rest' =>
    obtain ⟨⟨items, rest1⟩, h1, heq⟩ := Option.map_eq_some_iff.1 h
    have := readItems?_length_lt h1
    simp_all
    omega
  case h_11 rest' =>
    obtain ⟨⟨n, rest1⟩, h1, heq⟩ := Option.map_eq_some_iff.1 h
    have := readNumber?_length_lt h1
    simp_all
    omega
  case h_12 rest' =>
    obtain ⟨⟨n, rest1⟩, h1, heq⟩ := Option.map_eq_some_iff.1 h
    have := readNumber?_length_lt h1
    simp_all
  all_goals simp_all <;> omega

end SatNav.Json
