/-
Lengths as they are written. A length is read from a text exactly if the
text is a number and `px`, with blanks around both, and the number fits in
a word of 64 bits (`parsePx_exact`). The number is decimal: a sign, which
may be left out, and one or more digits, leading zeros among them.

What a number is worth is said by the places of its digits, counted from
the last one. The reader starts at the first digit and does not know how
many follow, so the induction over the digits is about a reader that has
read something before (`digitsFrom?_digitText`): each digit that follows
moves it up by a place.
-/
import LayerPage.Proofs.Length
import Mathlib.Data.Nat.Digits.Defs

namespace LayerPage

namespace Text

-- =============================================================== digits

/-- Decimal digits as they are written. -/
def digitText (digits : List (Fin 10)) : List Char :=
  digits.map fun d => d.val.digitChar

/-- What decimal digits are worth, the last one being the units. -/
def magnitude (digits : List (Fin 10)) : Nat :=
  Nat.ofDigits 10 (digits.map Fin.val).reverse

/-- The first digit counts for as many places as there are digits after
it. -/
theorem magnitude_cons (d : Fin 10) (digits : List (Fin 10)) :
    magnitude (d :: digits)
      = magnitude digits + 10 ^ digits.length * d := by
  rw [magnitude, List.map_cons, Nat.ofDigits_reverse_cons, List.length_map]
  rfl

/-- Digits are written as digits. -/
theorem isDigit_of_mem_digitText {digits : List (Fin 10)} {c : Char}
    (hc : c ∈ digitText digits) : c.isDigit = true := by
  obtain ⟨d, -, rfl⟩ := List.mem_map.1 hc
  rw [Nat.isDigit_digitChar]
  exact decide_eq_true d.isLt

theorem digitText_ne_nil {digits : List (Fin 10)} (h : digits ≠ []) :
    digitText digits ≠ [] :=
  fun hnil => h (List.map_eq_nil_iff.1 hnil)

/-- A digit that was written is read back. -/
theorem digit?_digitChar (d : Fin 10) :
    digit? 10 d.val.digitChar = some d.val := by
  revert d
  decide

/-- What is read as a digit was written as one. -/
theorem exists_digit_of_digit? {c : Char} {value : Nat}
    (h : digit? 10 c = some value) :
    ∃ d : Fin 10, c = d.val.digitChar := by
  unfold digit? at h
  obtain ⟨hvalue, hlt⟩ := Option.filter_eq_some_iff.1 h
  rw [decide_eq_true_eq] at hlt
  split at hvalue
  · next hrange =>
    obtain ⟨hlow, hhigh⟩ : 48 ≤ c.toNat ∧ c.toNat ≤ 57 := hrange
    refine ⟨⟨c.toNat - 48, by omega⟩, ?_⟩
    show c = (c.toNat - 48).digitChar
    rw [← Char.toNat_inj, Nat.toNat_digitChar_of_lt_ten (by omega)]
    omega
  · -- letters are worth ten and more
    split at hvalue
    · cases hvalue
      omega
    · split at hvalue
      · cases hvalue
        omega
      · cases hvalue

-- ============================================================== numbers

/-- Every digit moves what was read before up by a place. -/
theorem digitsFrom?_digitText (digits : List (Fin 10)) (read : Nat) :
    digitsFrom? 10 read (digitText digits)
      = some (10 ^ digits.length * read + magnitude digits) := by
  induction digits generalizing read with
  | nil =>
      show some read = some (10 ^ 0 * read + 0)
      rw [Nat.pow_zero, Nat.one_mul, Nat.add_zero]
  | cons d digits ih =>
      rw [digitText, List.map_cons, digitsFrom?, digit?_digitChar,
        Option.bind_some, ← digitText, ih, magnitude_cons, List.length_cons]
      congr 1
      ring

/-- What is read as digits was written so. The induction is on the text,
with what was read before generalised. -/
theorem exists_digits_of_digitsFrom? {cs : List Char} {read value : Nat}
    (h : digitsFrom? 10 read cs = some value) :
    ∃ digits, cs = digitText digits := by
  induction cs generalizing read with
  | nil => exact ⟨[], rfl⟩
  | cons c cs ih =>
      rw [digitsFrom?] at h
      obtain ⟨first, hfirst, hrest⟩ := Option.bind_eq_some_iff.1 h
      obtain ⟨d, rfl⟩ := exists_digit_of_digit? hfirst
      obtain ⟨digits, rfl⟩ := ih hrest
      exact ⟨d :: digits, rfl⟩

/-- Digits are read as what they are worth. -/
theorem digits?_digitText {digits : List (Fin 10)} (h : digits ≠ []) :
    digits? 10 (digitText digits) = some (magnitude digits) := by
  have hread := digitsFrom?_digitText digits 0
  rw [Nat.mul_zero, Nat.zero_add] at hread
  unfold digits?
  split
  · next hnil => exact absurd hnil (digitText_ne_nil h)
  · exact hread

/-- One digit or more is read, as what the digits are worth. -/
theorem digits?_eq_some_iff {cs : List Char} {value : Nat} :
    digits? 10 cs = some value
      ↔ ∃ digits, digits ≠ [] ∧ cs = digitText digits
        ∧ value = magnitude digits := by
  constructor
  · intro h
    have hne : cs ≠ [] := by
      rintro rfl
      cases h
    obtain ⟨digits, rfl⟩ : ∃ digits, cs = digitText digits := by
      unfold digits? at h
      split at h
      · cases h
      · exact exists_digits_of_digitsFrom? h
    have hdigits : digits ≠ [] := fun hnil => hne (by rw [hnil]; rfl)
    rw [digits?_digitText hdigits] at h
    exact ⟨digits, hdigits, rfl, (Option.some.inj h).symm⟩
  · rintro ⟨digits, hdigits, rfl, rfl⟩
    exact digits?_digitText hdigits

-- ================================================================ signs

/-- What may stand before the digits of an integer. -/
inductive Sign where
  | absent
  | plus
  | minus

namespace Sign

/-- How a sign is written. -/
def text : Sign → List Char
  | absent => []
  | plus => ['+']
  | minus => ['-']

/-- The integer of a size, on the side of zero that a sign says. -/
def apply : Sign → Nat → Int
  | minus, n => -(n : Int)
  | _, n => n

end Sign

/-- An integer as it is written: a sign, which may be left out, and one or
more digits. -/
structure Numeral where
  sign : Sign
  digits : List (Fin 10)
  digits_nonempty : digits ≠ []

namespace Numeral

/-- The text of an integer. -/
def text (m : Numeral) : List Char :=
  m.sign.text ++ digitText m.digits

/-- The integer that a numeral is written for. -/
def value (m : Numeral) : Int :=
  m.sign.apply (magnitude m.digits)

theorem text_ne_nil (m : Numeral) : m.text ≠ [] := fun hnil =>
  digitText_ne_nil m.digits_nonempty (List.append_eq_nil_iff.1 hnil).2

/-- A numeral neither begins nor ends with a blank. -/
theorem isTrimmed_text (m : Numeral) : IsTrimmed m.text := by
  refine isTrimmed_of_not_blank fun c hc => ?_
  rcases List.mem_append.1 hc with hsign | hdigit
  · have hall : ∀ sign : Sign, ∀ c ∈ sign.text, isBlank c = false := by
      intro sign
      cases sign with
      | absent => exact List.forall_mem_nil _
      | plus => exact List.forall_mem_singleton.2 (by decide)
      | minus => exact List.forall_mem_singleton.2 (by decide)
    exact hall m.sign c hsign
  · exact not_isBlank_of_isDigit (isDigit_of_mem_digitText hdigit)

/-- A numeral is read as its value, sign and all. -/
theorem signed?_text (m : Numeral) : signed? 10 m.text = some m.value := by
  obtain ⟨sign, digits, hne⟩ := m
  have hread := digits?_digitText hne
  cases sign with
  | absent =>
      show signed? 10 (digitText digits) = _
      rw [signed?_of_isDigit fun _ => isDigit_of_mem_digitText, hread]
      rfl
  | plus =>
      show (digits? 10 (digitText digits)).map Int.ofNat = _
      rw [hread]
      rfl
  | minus =>
      show (digits? 10 (digitText digits)).map (fun n => -(n : Int)) = _
      rw [hread]
      rfl

end Numeral

/-- An integer is read with one sign at most, which comes before the
digits. -/
theorem exists_numeral_of_signed? {cs : List Char} {n : Int}
    (h : signed? 10 cs = some n) : ∃ m : Numeral, cs = m.text := by
  have hdigits : ∀ (sign : Sign) {rest : List Char} {value : Nat},
      digits? 10 rest = some value →
      ∃ m : Numeral, sign.text ++ rest = m.text := by
    intro sign rest value hread
    obtain ⟨digits, hne, rfl, -⟩ := digits?_eq_some_iff.1 hread
    exact ⟨⟨sign, digits, hne⟩, rfl⟩
  unfold signed? at h
  split at h
  · -- the digits are lifted to the integers before they get the sign
    obtain ⟨lifted, hlifted, -⟩ := Option.map_eq_some_iff.1 h
    obtain ⟨value, hread, -⟩ := Option.bind_eq_some_iff.1 hlifted
    exact hdigits .minus hread
  · obtain ⟨value, hunsigned, -⟩ := Option.map_eq_some_iff.1 h
    unfold unsigned? at hunsigned
    split at hunsigned
    · exact hdigits .plus hunsigned
    · exact hdigits .absent hunsigned

end Text

namespace Length

open Text (isBlank)

-- ============================================================== lengths

/-- A length as it is written: a number and `px`, with blanks around each
of them. -/
structure Spelling where
  blanksBefore : List Char
  number : Text.Numeral
  blanksBeforeUnit : List Char
  blanksAfter : List Char
  blanks : ∀ c ∈ blanksBefore ++ blanksBeforeUnit ++ blanksAfter,
    isBlank c = true

namespace Spelling

/-- The text of a length. -/
def text (s : Spelling) : List Char :=
  s.blanksBefore
    ++ (s.number.text ++ (s.blanksBeforeUnit ++ ['p', 'x']) ++ s.blanksAfter)

/-- A length that is spelled is read if it fits, and otherwise not
at all. -/
theorem parsePx?_eq (s : Spelling) {text : String}
    (htext : text.toList = s.text) :
    parsePx? text
      = (some s.number.value).filter (Text.fitsSigned bits) := by
  obtain ⟨⟨hbefore, hgap⟩, hafter⟩ := by
    simpa only [List.forall_mem_append] using s.blanks
  rw [parsePx?_spaced s.number.text_ne_nil s.number.isTrimmed_text hbefore
    hgap hafter htext, s.number.signed?_text]

end Spelling

/-- What is read as a length was spelled as one. -/
theorem exists_spelling_of_parsePx? {text : String} {n : Int}
    (h : parsePx? text = some n) :
    ∃ s : Spelling, text.toList = s.text := by
  unfold parsePx? at h
  simp only [Option.bind_eq_bind, Option.bind_eq_some_iff] at h
  obtain ⟨front, hunit, value, hread, -⟩ := h
  rw [Text.dropEnding?_eq_some_iff] at hunit
  obtain ⟨m, hm⟩ := Text.exists_numeral_of_signed? hread
  obtain ⟨before, after, hbefore, hafter, htext, -⟩ :=
    Text.exists_trim_padded text.toList
  obtain ⟨inner, gap, hinner, hgap, hfront, -⟩ :=
    Text.exists_trim_padded front
  have hblanks : ∀ c ∈ before ++ inner ++ gap ++ after,
      isBlank c = true := by
    simp only [List.forall_mem_append]
    exact ⟨⟨⟨hbefore, hinner⟩, hgap⟩, hafter⟩
  refine ⟨⟨before ++ inner, m, gap, after, hblanks⟩, ?_⟩
  calc text.toList
      = before ++ (inner ++ (m.text ++ gap) ++ ['p', 'x'] ++ after) := by
        rw [← hm, ← hfront, ← hunit, ← htext]
    _ = _ := by simp [Spelling.text]

/-- Exactly the lengths are read whose number fits, each as its number. -/
theorem parsePx?_eq_some_iff {text : String} {n : Int} :
    parsePx? text = some n
      ↔ (∃ s : Spelling, text.toList = s.text ∧ n = s.number.value)
        ∧ Text.fitsSigned bits n = true := by
  constructor
  · intro h
    obtain ⟨s, htext⟩ := exists_spelling_of_parsePx? h
    rw [s.parsePx?_eq htext] at h
    obtain ⟨hvalue, hfits⟩ := Option.filter_eq_some_iff.1 h
    exact ⟨⟨s, htext, (Option.some.inj hvalue).symm⟩, hfits⟩
  · rintro ⟨⟨s, htext, rfl⟩, hfits⟩
    rw [s.parsePx?_eq htext, Option.filter_some, if_pos hfits]

/-- The first number that does not fit. -/
example : parsePx? "+9223372036854775808px" = none := by decide

/-- What is written as a length is read back, and blanks around it or before
its unit make no difference. A text is read exactly if it is a length whose
number fits in a word of 64 bits, and it is read as that number. -/
theorem parsePx_exact :
    (∀ n : Int64, parsePx? (px n.toInt) = some n.toInt
      ∧ ∃ number, px n.toInt = number ++ "px"
        ∧ ∀ before gap after : String,
          (∀ c ∈ (before ++ gap ++ after).toList, isBlank c = true) →
          parsePx? (before ++ (number ++ (gap ++ "px")) ++ after)
            = some n.toInt)
      ∧ ∀ text n, parsePx? text = some n
        ↔ (∃ s : Spelling, text.toList = s.text ∧ n = s.number.value)
          ∧ Int64.minValue.toInt ≤ n ∧ n ≤ Int64.maxValue.toInt := by
  constructor
  · intro n
    have hfits : Text.fitsSigned bits n.toInt = true :=
      fitsSigned_iff_int64.2 ⟨n.minValue_le_toInt, n.toInt_le⟩
    refine ⟨parsePx?_px hfits, toString n.toInt, rfl, ?_⟩
    intro before gap after hblanks
    simp only [String.toList_append, List.forall_mem_append] at hblanks
    obtain ⟨⟨hbefore, hgap⟩, hafter⟩ := hblanks
    refine parsePx?_toString hfits hbefore hgap hafter ?_
    simp [String.toList_append]
  · intro text n
    rw [parsePx?_eq_some_iff, fitsSigned_iff_int64]

/-- The least number of all, with blanks of another kind in each place. -/
theorem least_parsePx :
    (∀ c ∈ ("\t\u00a0" ++ "\u3000" ++ "\r\n").toList, isBlank c = true)
      ∧ parsePx? "\t\u00a0-9223372036854775808\u3000px\r\n"
        = some (-9223372036854775808) := by
  have hblanks : ∀ c ∈ ("\t\u00a0" ++ "\u3000" ++ "\r\n").toList,
      isBlank c = true :=
    List.all_eq_true.1 (by decide)
  have hleast : Int64.minValue.toInt = -9223372036854775808 := rfl
  have hpx : px (-9223372036854775808)
      = "-9223372036854775808" ++ "px" := by
    decide
  have htext : "\t\u00a0"
      ++ ("-9223372036854775808" ++ ("\u3000" ++ "px")) ++ "\r\n"
      = "\t\u00a0-9223372036854775808\u3000px\r\n" := by
    decide
  obtain ⟨number, hnumber, hread⟩ := (parsePx_exact.1 Int64.minValue).2
  rw [hleast, hpx, String.append_left_inj] at hnumber
  have hpadded := hread _ _ _ hblanks
  rw [← hnumber, hleast, htext] at hpadded
  exact ⟨hblanks, hpadded⟩

end Length

end LayerPage
