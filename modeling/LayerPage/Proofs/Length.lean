/-
Lengths survive being written: what `px` prints, `parsePx?` reads, as
long as it fits, and blanks around it or before the unit do not matter.
Layout relies on it where it takes back a height that it inferred before.
-/
import LayerPage.Length
import LayerPage.Proofs.Blank

namespace LayerPage

namespace Text

-- ============================================================== decimals

/-- Digits are no blanks. -/
theorem not_isBlank_of_isDigit {c : Char} (h : c.isDigit = true) :
    isBlank c = false := by
  obtain ⟨hlow, hhigh⟩ : 48 ≤ c.toNat ∧ c.toNat ≤ 57 :=
    Char.isDigit_iff_toNat.1 h
  simp only [isBlank, blankRanges, List.any_cons, List.any_nil,
    Bool.or_eq_false_iff, Bool.and_eq_false_iff, decide_eq_false_iff_not,
    and_true]
  omega

/-- A digit is worth its distance from zero. -/
theorem digit?_of_isDigit {c : Char} (h : c.isDigit = true) :
    digit? 10 c = some (c.toNat - '0'.toNat) := by
  obtain ⟨hlow, hhigh⟩ : 48 ≤ c.toNat ∧ c.toNat ≤ 57 :=
    Char.isDigit_iff_toNat.1 h
  have hrange : '0' ≤ c ∧ c ≤ '9' := by
    rw [Char.le_def, Char.le_def, UInt32.le_iff_toNat_le,
      UInt32.le_iff_toNat_le]
    exact ⟨hlow, hhigh⟩
  have hlt : c.toNat - '0'.toNat < 10 := by
    show c.toNat - 48 < 10
    omega
  unfold digit?
  rw [if_pos hrange]
  exact Option.filter_some_pos (decide_eq_true hlt)

/-- A run of digits is read as the number that it is written for. -/
theorem digitsFrom?_of_isDigit {cs : List Char}
    (h : ∀ c ∈ cs, c.isDigit = true) (read : Nat) :
    digitsFrom? 10 read cs = some (Nat.ofDigitChars 10 cs read) := by
  induction cs generalizing read with
  | nil => rw [digitsFrom?, Nat.ofDigitChars_nil]
  | cons c rest ih =>
      rw [digitsFrom?, digit?_of_isDigit (h c List.mem_cons_self),
        Option.bind_some, Nat.ofDigitChars_cons]
      exact ih (fun c hc => h c (List.mem_cons_of_mem _ hc)) _

/-- The digits of a number are read back. -/
theorem digits?_toDigits (n : Nat) :
    digits? 10 (Nat.toDigits 10 n) = some n := by
  have hdigits : ∀ c ∈ Nat.toDigits 10 n, c.isDigit = true := fun c hc =>
    Nat.isDigit_of_mem_toDigits (by decide) (by decide) hc
  have hread := digitsFrom?_of_isDigit hdigits 0
  rw [Nat.ofDigitChars_ten_toDigits] at hread
  cases hcs : Nat.toDigits 10 n with
  | nil => exact absurd hcs Nat.toDigits_ne_nil
  | cons c rest =>
      rw [hcs] at hread
      exact hread

/-- Digits alone have no sign to take off. -/
theorem signed?_of_isDigit {cs : List Char}
    (h : ∀ c ∈ cs, c.isDigit = true) :
    signed? 10 cs = (digits? 10 cs).map Int.ofNat := by
  have hunsigned : unsigned? 10 cs = digits? 10 cs := by
    unfold unsigned?
    split
    · exact absurd (h '+' List.mem_cons_self) (by decide)
    · rfl
  unfold signed?
  split
  · exact absurd (h '-' List.mem_cons_self) (by decide)
  · rw [hunsigned]

theorem signed?_toString (n : Int) :
    signed? 10 (toString n).toList = some n := by
  rw [Int.toString_eq_repr, Int.repr_eq_if]
  by_cases hn : 0 ≤ n
  · have hdigits : ∀ c ∈ Nat.toDigits 10 n.toNat, c.isDigit = true :=
      fun c hc => Nat.isDigit_of_mem_toDigits (by decide) (by decide) hc
    rw [if_pos hn, Nat.toList_repr, signed?_of_isDigit hdigits,
      digits?_toDigits, Option.map_some, Int.ofNat_eq_natCast,
      Int.toNat_of_nonneg hn]
  · rw [if_neg hn, String.toList_append, Nat.toList_repr]
    show signed? 10 ('-' :: Nat.toDigits 10 (-n).toNat) = some n
    rw [signed?, digits?_toDigits]
    show some (-((-n).toNat : Int)) = some n
    congr 1
    omega

theorem toList_toString_ne_nil (n : Int) : (toString n).toList ≠ [] := by
  intro hnil
  have hread := signed?_toString n
  rw [hnil] at hread
  cases hread

/-- An integer is written in digits, with a sign if it is negative. -/
theorem sign_or_isDigit_of_mem_toString {n : Int} {c : Char}
    (hc : c ∈ (toString n).toList) : c = '-' ∨ c.isDigit = true := by
  have hdigits : ∀ {m : Nat}, c ∈ Nat.toDigits 10 m → c.isDigit = true :=
    Nat.isDigit_of_mem_toDigits (by decide) (by decide)
  rw [Int.toString_eq_repr, Int.repr_eq_if] at hc
  by_cases hn : 0 ≤ n
  · rw [if_pos hn, Nat.toList_repr] at hc
    exact .inr (hdigits hc)
  · rw [if_neg hn, String.toList_append, Nat.toList_repr] at hc
    exact (List.mem_append.1 hc).imp List.mem_singleton.1 hdigits

/-- No blank is written in an integer. -/
theorem not_isBlank_of_mem_toString {n : Int} {c : Char}
    (hc : c ∈ (toString n).toList) : isBlank c = false := by
  rcases sign_or_isDigit_of_mem_toString hc with rfl | hdigit
  · decide
  · exact not_isBlank_of_isDigit hdigit

end Text

namespace Length

/-- The words of a length are those of 64 bits, with a sign. -/
theorem fitsSigned_iff {n : Int} :
    Text.fitsSigned bits n = true
      ↔ -9223372036854775808 ≤ n ∧ n < 9223372036854775808 := by
  have hbound : Int.ofNat (1 <<< (bits - 1)) = 9223372036854775808 := by
    decide
  unfold Text.fitsSigned
  rw [hbound]
  simp only [Bool.and_eq_true, decide_eq_true_eq]
  omega

/-- What fits lies between the least word and the greatest one. -/
theorem fitsSigned_iff_int64 {n : Int} :
    Text.fitsSigned bits n = true
      ↔ Int64.minValue.toInt ≤ n ∧ n ≤ Int64.maxValue.toInt := by
  rw [fitsSigned_iff, Int64.toInt_minValue, Int64.toInt_maxValue]
  omega

/-- Every edge and every side of a layer fits. -/
theorem fitsSigned_toInt (n : Int32) :
    Text.fitsSigned bits n.toInt = true := by
  have hlow := n.le_toInt
  have hhigh := n.toInt_lt
  rw [fitsSigned_iff]
  omega

/-- The distance of two places fits. -/
theorem fitsSigned_sub (a b : Int32) :
    Text.fitsSigned bits (a.toInt - b.toInt) = true := by
  have halow := a.le_toInt
  have hahigh := a.toInt_lt
  have hblow := b.le_toInt
  have hbhigh := b.toInt_lt
  rw [fitsSigned_iff]
  omega

/-- The distance of a place from the far edge of a layer fits. -/
theorem fitsSigned_sub_add (a b c : Int32) :
    Text.fitsSigned bits (a.toInt - (b.toInt + c.toInt)) = true := by
  have halow := a.le_toInt
  have hahigh := a.toInt_lt
  have hblow := b.le_toInt
  have hbhigh := b.toInt_lt
  have hclow := c.le_toInt
  have hchigh := c.toInt_lt
  rw [fitsSigned_iff]
  omega

/-- What is read fits. -/
theorem fitsSigned_of_parsePx? {text : String} {n : Int}
    (h : parsePx? text = some n) : Text.fitsSigned bits n = true := by
  unfold parsePx? at h
  simp only [bind, Option.bind_eq_some_iff] at h
  obtain ⟨digits, -, value, -, hfits⟩ := h
  split at hfits
  · next hvalue =>
    cases hfits
    exact hvalue
  · cases hfits

/-- The end of the range makes no difference to what is left of a length,
since nothing is left there. -/
theorem max_saturatingSub {a b : Int} (ha : Text.fitsSigned bits a = true)
    (hb : 0 ≤ b) : max (saturatingSub a b) 0 = max (a - b) 0 := by
  rw [fitsSigned_iff] at ha
  rw [saturatingSub, Int64.toInt_minValue, Int64.toInt_maxValue]
  omega

/-- Reading takes the unit off, and the blanks around the text and before the
unit. What is left of the text is the number. -/
theorem parsePx?_spaced {text : String}
    {before number gap after : List Char} (hne : number ≠ [])
    (hnumber : Text.IsTrimmed number)
    (hbefore : ∀ c ∈ before, Text.isBlank c = true)
    (hgap : ∀ c ∈ gap, Text.isBlank c = true)
    (hafter : ∀ c ∈ after, Text.isBlank c = true)
    (htext : text.toList
      = before ++ (number ++ (gap ++ ['p', 'x']) ++ after)) :
    parsePx? text
      = (Text.signed? 10 number).filter (Text.fitsSigned bits) := by
  have houter : Text.IsTrimmed (number ++ (gap ++ ['p', 'x'])) := by
    refine ⟨(Text.stops_append hne).2 hnumber.1, ?_⟩
    rw [List.reverse_append, List.reverse_append]
    exact Text.stops_cons.2 (by decide)
  have hlength : Text.trim text.toList = number ++ gap ++ ['p', 'x'] := by
    rw [htext, Text.trim_padded (by simp) houter hbefore hafter,
      List.append_assoc]
  unfold parsePx?
  rw [hlength, Text.dropEnding?_eq_some_iff.2 rfl]
  show (Text.signed? 10 (Text.trim (number ++ gap))).bind _ = _
  rw [Text.trim_blanks hne hnumber hgap]
  cases Text.signed? 10 number with
  | none => rfl
  | some n => rw [Option.bind_some, Option.filter_some]

/-- A number that fits is read back as a length, whatever blanks there are
around the text and before the unit. -/
theorem parsePx?_toString {n : Int} (h : Text.fitsSigned bits n = true)
    {text : String} {before gap after : List Char}
    (hbefore : ∀ c ∈ before, Text.isBlank c = true)
    (hgap : ∀ c ∈ gap, Text.isBlank c = true)
    (hafter : ∀ c ∈ after, Text.isBlank c = true)
    (htext : text.toList
      = before ++ ((toString n).toList ++ (gap ++ ['p', 'x']) ++ after)) :
    parsePx? text = some n := by
  have hnumber : Text.IsTrimmed (toString n).toList :=
    Text.isTrimmed_of_not_blank fun _ => Text.not_isBlank_of_mem_toString
  rw [parsePx?_spaced (Text.toList_toString_ne_nil n) hnumber hbefore hgap
      hafter htext,
    Text.signed?_toString, Option.filter_some, if_pos h]

/-- A length that fits is read back. -/
theorem parsePx?_px {n : Int} (h : Text.fitsSigned bits n = true) :
    parsePx? (px n) = some n := by
  have hnone : ∀ c ∈ ([] : List Char), Text.isBlank c = true := nofun
  refine parsePx?_toString h hnone hnone hnone ?_
  rw [px, String.toList_append, List.append_nil]
  rfl

end Length

end LayerPage
