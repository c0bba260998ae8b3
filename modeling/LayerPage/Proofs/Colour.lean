/-
Colours as they are written. A colour is read from a text exactly if the
text is `#`, which may be absent, and three, six or eight digits, between
blanks (`ofHex_exact`). The one thing that goes beyond the notation is in
the forms of two digits for each byte, where `+` may stand in place of the
first of them: the byte is then read like any number with a sign.

What a digit is, is said by a table; the reader looks at ranges of
characters.
-/
import LayerPage.Colour
import LayerPage.Proofs.Blank
import Mathlib.Tactic.IntervalCases

namespace LayerPage.Colour

open Text (isBlank digit?)

-- =============================================================== digits

/-- The hexadecimal digits, each at the place of its value. -/
def hexDigits : List Char :=
  ['0', '1', '2', '3', '4', '5', '6', '7', '8', '9', 'a', 'b', 'c', 'd',
    'e', 'f']

/-- The same digits with letters in upper case. -/
def upperHexDigits : List Char :=
  ['0', '1', '2', '3', '4', '5', '6', '7', '8', '9', 'A', 'B', 'C', 'D',
    'E', 'F']

/-- Whether a character is a digit with a value. -/
def IsHexDigit (c : Char) (value : Nat) : Prop :=
  hexDigits[value]? = some c ∨ upperHexDigits[value]? = some c

/-- No digit is a blank or one of the two marks of a colour. -/
theorem IsHexDigit.not_mark {c : Char} {value : Nat}
    (h : IsHexDigit c value) :
    isBlank c = false ∧ c ≠ '#' ∧ c ≠ '+' := by
  have hmem : c ∈ hexDigits ++ upperHexDigits := by
    rcases h with h | h
    · exact List.mem_append_left _ (List.mem_of_getElem? h)
    · exact List.mem_append_right _ (List.mem_of_getElem? h)
  have hall : (hexDigits ++ upperHexDigits).all
      (fun c => !isBlank c && c != '#' && c != '+') = true := by
    decide
  simpa [and_assoc] using List.all_eq_true.1 hall c hmem

/-- Each hexadecimal digit is read as its value. -/
theorem digit?_of_isHexDigit {c : Char} {value : Nat}
    (h : IsHexDigit c value) : digit? 16 c = some value := by
  have hlt : value < 16 := by
    rcases h with h | h
    · exact (List.getElem?_eq_some_iff.1 h).1
    · exact (List.getElem?_eq_some_iff.1 h).1
  have hall : ∀ value < 16, hexDigits[value]?.bind (digit? 16) = some value
      ∧ upperHexDigits[value]?.bind (digit? 16) = some value := by
    decide
  rcases h with h | h
  · rw [← (hall value hlt).1, h]
    rfl
  · rw [← (hall value hlt).2, h]
    rfl

/-- What is read in base 16 is a hexadecimal digit. -/
theorem isHexDigit_of_digit? {c : Char} {value : Nat}
    (h : digit? 16 c = some value) : IsHexDigit c value := by
  -- a range of characters is a range of code points, and those are tried
  have hrange : ∀ low high : Char, low ≤ c ∧ c ≤ high ↔
      low.toNat ≤ c.toNat ∧ c.toNat ≤ high.toNat := fun _ _ => Iff.rfl
  have hself := Char.ofNat_toNat c
  unfold digit? at h
  simp only [hrange] at h
  generalize c.toNat = n at h hself
  subst hself
  obtain ⟨hvalue, -⟩ := Option.filter_eq_some_iff.1 h
  split at hvalue
  · next hn =>
    obtain ⟨hlow, hhigh⟩ : 48 ≤ n ∧ n ≤ 57 := hn
    cases hvalue
    interval_cases n <;> exact .inl rfl
  · split at hvalue
    · next hn =>
      obtain ⟨hlow, hhigh⟩ : 97 ≤ n ∧ n ≤ 102 := hn
      cases hvalue
      interval_cases n <;> exact .inl rfl
    · split at hvalue
      · next hn =>
        obtain ⟨hlow, hhigh⟩ : 65 ≤ n ∧ n ≤ 70 := hn
        cases hvalue
        interval_cases n <;> exact .inr rfl
      · cases hvalue

/-- Exactly the hexadecimal digits are read. -/
theorem digit?_eq_some_iff {c : Char} {value : Nat} :
    digit? 16 c = some value ↔ IsHexDigit c value :=
  ⟨isHexDigit_of_digit?, digit?_of_isHexDigit⟩

-- ================================================================ bytes

/-- Whether two characters are the digits of a byte. -/
def IsPair (c d : Char) (byte : UInt8) : Prop :=
  ∃ high low, IsHexDigit c high ∧ IsHexDigit d low
    ∧ byte = (16 * high + low).toUInt8

/-- Whether two characters are read as a byte: its digits, or a plus sign
and the only digit. -/
def IsReadPair (c d : Char) (byte : UInt8) : Prop :=
  IsPair c d byte
    ∨ c = '+' ∧ ∃ low, IsHexDigit d low ∧ byte = low.toUInt8

/-- One digit stands for a pair of two that are the same. -/
theorem doubled?_eq_some_iff {c : Char} {byte : UInt8} :
    doubled? c = some byte ↔ IsPair c c byte := by
  unfold doubled?
  rw [Option.map_eq_some_iff]
  constructor
  · rintro ⟨value, hvalue, rfl⟩
    have hdigit := digit?_eq_some_iff.1 hvalue
    refine ⟨value, value, hdigit, hdigit, ?_⟩
    congr 1
    omega
  · rintro ⟨high, low, hhigh, hlow, rfl⟩
    have hsame : high = low := by
      rw [← digit?_eq_some_iff] at hhigh hlow
      exact Option.some.inj (hhigh.symm.trans hlow)
    refine ⟨high, digit?_eq_some_iff.2 hhigh, ?_⟩
    congr 1
    omega

/-- A pair is read as a byte, and so is a digit after a plus sign. -/
theorem byte?_eq_some_iff {c d : Char} {byte : UInt8} :
    byte? c d = some byte ↔ IsReadPair c d byte := by
  unfold byte? IsReadPair IsPair
  simp only [← digit?_eq_some_iff]
  by_cases hplus : c = '+'
  · subst hplus
    have hnone : digit? 16 '+' = none := by decide
    simp [Text.unsigned?, Text.digits?, Text.digitsFrom?, hnone, eq_comm]
  · have hdigits : Text.unsigned? 16 [c, d] = Text.digits? 16 [c, d] := by
      unfold Text.unsigned?
      split
      · next heq =>
        cases heq
        exact absurd rfl hplus
      · rfl
    have hread : (Text.digits? 16 [c, d]).map Nat.toUInt8
        = (digit? 16 c).bind fun high => (digit? 16 d).bind fun low =>
            some (16 * high + low).toUInt8 := by
      simp [Text.digits?, Text.digitsFrom?]
    rw [hdigits, hread]
    simp only [Option.bind_eq_some_iff, Option.some.injEq, hplus,
      false_and, or_false, exists_and_left, eq_comm (a := byte)]

-- ============================================================== colours

/-- Whether characters are the digits of a colour, given how the digits of a
byte are written: three that are doubled, or two for each byte. -/
inductive Spells (pair : Char → Char → UInt8 → Prop) :
    List Char → Colour → Prop
  | doubled {r g b : Char} {red green blue : UInt8} :
      IsPair r r red → IsPair g g green → IsPair b b blue →
      Spells pair [r, g, b] ⟨red, green, blue, 255⟩
  | solid {r r' g g' b b' : Char} {red green blue : UInt8} :
      pair r r' red → pair g g' green → pair b b' blue →
      Spells pair [r, r', g, g', b, b'] ⟨red, green, blue, 255⟩
  | bytes {r r' g g' b b' a a' : Char} {red green blue alpha : UInt8} :
      pair r r' red → pair g g' green → pair b b' blue → pair a a' alpha →
      Spells pair [r, r', g, g', b, b', a, a'] ⟨red, green, blue, alpha⟩

/-- Whether a text is a colour: a mark, which may be absent, and the digits,
with blanks around both. -/
def IsWritten (pair : Char → Char → UInt8 → Prop) (text : String)
    (colour : Colour) : Prop :=
  ∃ before mark digits after,
    text.toList = before ++ (mark ++ digits ++ after)
      ∧ (∀ c ∈ before, isBlank c = true) ∧ (∀ c ∈ after, isBlank c = true)
      ∧ (mark = [] ∨ mark = ['#']) ∧ Spells pair digits colour

/-- A colour is read from three digits, or from three or four pairs. -/
theorem ofDigits?_eq_some_iff {cs : List Char} {colour : Colour} :
    ofDigits? cs = some colour ↔ Spells IsReadPair cs colour := by
  constructor
  · intro h
    unfold ofDigits? at h
    split at h
    · simp only [bind, pure, Option.bind_eq_some_iff, Option.some.injEq,
        doubled?_eq_some_iff] at h
      obtain ⟨red, hred, green, hgreen, blue, hblue, rfl⟩ := h
      exact .doubled hred hgreen hblue
    · simp only [bind, pure, Option.bind_eq_some_iff, Option.some.injEq,
        byte?_eq_some_iff] at h
      obtain ⟨red, hred, green, hgreen, blue, hblue, rfl⟩ := h
      exact .solid hred hgreen hblue
    · simp only [bind, pure, Option.bind_eq_some_iff, Option.some.injEq,
        byte?_eq_some_iff] at h
      obtain ⟨red, hred, green, hgreen, blue, hblue, alpha, halpha, rfl⟩ := h
      exact .bytes hred hgreen hblue halpha
    · cases h
  · intro h
    cases h with
    | doubled hred hgreen hblue =>
        rw [← doubled?_eq_some_iff] at hred hgreen hblue
        simp [ofDigits?, hred, hgreen, hblue]
    | solid hred hgreen hblue =>
        rw [← byte?_eq_some_iff] at hred hgreen hblue
        simp [ofDigits?, hred, hgreen, hblue]
    | bytes hred hgreen hblue halpha =>
        rw [← byte?_eq_some_iff] at hred hgreen hblue halpha
        simp [ofDigits?, hred, hgreen, hblue, halpha]

-- ================================================================ texts

/-- What holds of every digit, and of both characters that are read as a
byte, holds of all that spells a colour. -/
theorem Spells.forall_mem {pair : Char → Char → UInt8 → Prop}
    {P : Char → Prop} (hdigit : ∀ c value, IsHexDigit c value → P c)
    (hpair : ∀ c d byte, pair c d byte → P c ∧ P d)
    {digits : List Char} {colour : Colour} (h : Spells pair digits colour) :
    ∀ c ∈ digits, P c := by
  cases h with
  | doubled hred hgreen hblue =>
      obtain ⟨_, _, hr, -⟩ := hred
      obtain ⟨_, _, hg, -⟩ := hgreen
      obtain ⟨_, _, hb, -⟩ := hblue
      simp only [List.forall_mem_cons]
      exact ⟨hdigit _ _ hr, hdigit _ _ hg, hdigit _ _ hb,
        List.forall_mem_nil _⟩
  | solid hred hgreen hblue =>
      obtain ⟨hr, hr'⟩ := hpair _ _ _ hred
      obtain ⟨hg, hg'⟩ := hpair _ _ _ hgreen
      obtain ⟨hb, hb'⟩ := hpair _ _ _ hblue
      simp only [List.forall_mem_cons]
      exact ⟨hr, hr', hg, hg', hb, hb', List.forall_mem_nil _⟩
  | bytes hred hgreen hblue halpha =>
      obtain ⟨hr, hr'⟩ := hpair _ _ _ hred
      obtain ⟨hg, hg'⟩ := hpair _ _ _ hgreen
      obtain ⟨hb, hb'⟩ := hpair _ _ _ hblue
      obtain ⟨ha, ha'⟩ := hpair _ _ _ halpha
      simp only [List.forall_mem_cons]
      exact ⟨hr, hr', hg, hg', hb, hb', ha, ha', List.forall_mem_nil _⟩

/-- Neither a blank nor the mark in front is part of what spells a
colour. -/
theorem Spells.not_mark {digits : List Char} {colour : Colour}
    (h : Spells IsReadPair digits colour) :
    ∀ c ∈ digits, isBlank c = false ∧ c ≠ '#' := by
  have hdigit : ∀ c value, IsHexDigit c value →
      isBlank c = false ∧ c ≠ '#' := by
    intro c value hvalue
    obtain ⟨hblank, hmark, -⟩ := hvalue.not_mark
    exact ⟨hblank, hmark⟩
  refine h.forall_mem hdigit ?_
  rintro c d byte (⟨high, low, hhigh, hlow, -⟩ | ⟨rfl, low, hlow, -⟩)
  · exact ⟨hdigit c high hhigh, hdigit d low hlow⟩
  · exact ⟨by decide, hdigit d low hlow⟩

/-- Digits alone have no sign among them. -/
theorem Spells.not_plus {digits : List Char} {colour : Colour}
    (h : Spells IsPair digits colour) : '+' ∉ digits := by
  have hdigit : ∀ c value, IsHexDigit c value → c ≠ '+' :=
    fun c value hvalue => hvalue.not_mark.2.2
  have hall : ∀ c ∈ digits, c ≠ '+' := by
    refine h.forall_mem hdigit ?_
    rintro c d byte ⟨high, low, hhigh, hlow, -⟩
    exact ⟨hdigit c high hhigh, hdigit d low hlow⟩
  exact fun hmem => hall '+' hmem rfl

theorem Spells.ne_nil {pair : Char → Char → UInt8 → Prop}
    {digits : List Char} {colour : Colour} (h : Spells pair digits colour) :
    digits ≠ [] := by
  cases h with
  | doubled => exact List.cons_ne_nil _ _
  | solid => exact List.cons_ne_nil _ _
  | bytes => exact List.cons_ne_nil _ _

/-- What spells a colour does so as well where the characters it is made of
may be read in another way as the same bytes. -/
theorem Spells.mono {pair pair' : Char → Char → UInt8 → Prop}
    {digits : List Char} {colour : Colour}
    (hpair : ∀ c d byte, c ∈ digits → pair c d byte → pair' c d byte)
    (h : Spells pair digits colour) : Spells pair' digits colour := by
  cases h with
  | doubled hred hgreen hblue => exact .doubled hred hgreen hblue
  | solid hred hgreen hblue =>
      exact .solid (hpair _ _ _ (by simp) hred)
        (hpair _ _ _ (by simp) hgreen) (hpair _ _ _ (by simp) hblue)
  | bytes hred hgreen hblue halpha =>
      exact .bytes (hpair _ _ _ (by simp) hred)
        (hpair _ _ _ (by simp) hgreen) (hpair _ _ _ (by simp) hblue)
        (hpair _ _ _ (by simp) halpha)

/-- Reading takes off the blanks and the mark, and then reads digits. -/
theorem ofHex?_eq_some_iff {text : String} {colour : Colour} :
    ofHex? text = some colour ↔ IsWritten IsReadPair text colour := by
  unfold ofHex?
  rw [ofDigits?_eq_some_iff]
  constructor
  · intro h
    obtain ⟨before, after, hbefore, hafter, htext, -⟩ :=
      Text.exists_trim_padded text.toList
    cases hmark : Text.dropFirst? '#' (Text.trim text.toList) with
    | none =>
        rw [hmark, Option.getD_none] at h
        exact ⟨before, [], _, after, htext, hbefore, hafter, .inl rfl, h⟩
    | some digits =>
        rw [hmark, Option.getD_some] at h
        rw [Text.dropFirst?_eq_some_iff.1 hmark] at htext
        exact ⟨before, ['#'], digits, after, htext, hbefore, hafter,
          .inr rfl, h⟩
  · rintro ⟨before, mark, digits, after, htext, hbefore, hafter, hmark, h⟩
    -- no digit is a blank, so trimming stops at mark and digits
    have hvisible : ∀ c ∈ mark ++ digits, isBlank c = false := by
      intro c hc
      rcases List.mem_append.1 hc with hc | hc
      · rcases hmark with rfl | rfl
        · cases hc
        · rw [List.mem_singleton.1 hc]
          decide
      · exact (h.not_mark c hc).1
    have htrim : Text.trim text.toList = mark ++ digits := by
      rw [htext]
      refine Text.trim_padded ?_ ⟨?_, ?_⟩ hbefore hafter
      · exact fun hnil => h.ne_nil (List.append_eq_nil_iff.1 hnil).2
      · exact fun c hc => hvisible c (List.mem_of_mem_head? hc)
      · exact fun c hc =>
          hvisible c (List.mem_reverse.1 (List.mem_of_mem_head? hc))
    rw [htrim]
    rcases hmark with rfl | rfl
    · -- no digit is the mark
      cases hdrop : Text.dropFirst? '#' ([] ++ digits) with
      | none => exact h
      | some rest =>
          have hdigits : digits = '#' :: rest :=
            Text.dropFirst?_eq_some_iff.1 hdrop
          have hfirst := h.not_mark '#' (by simp [hdigits])
          exact absurd rfl hfirst.2
    · exact h

/-- Digits alone are what is read and has no sign. -/
theorem isWritten_isPair_iff {text : String} {colour : Colour} :
    IsWritten IsPair text colour ↔
      IsWritten IsReadPair text colour ∧ '+' ∉ text.toList := by
  constructor
  · rintro ⟨before, mark, digits, after, htext, hbefore, hafter, hmark, h⟩
    refine ⟨⟨before, mark, digits, after, htext, hbefore, hafter, hmark,
      h.mono fun _ _ _ _ hpair => .inl hpair⟩, ?_⟩
    have hblank : isBlank '+' = false := by decide
    have hbefore' : '+' ∉ before := fun hc => by simp [hbefore _ hc] at hblank
    have hafter' : '+' ∉ after := fun hc => by simp [hafter _ hc] at hblank
    have hmark' : '+' ∉ mark := by
      rcases hmark with rfl | rfl
      · exact List.not_mem_nil
      · decide
    simp [htext, hbefore', hafter', hmark', h.not_plus]
  · rintro ⟨⟨before, mark, digits, after, htext, hbefore, hafter, hmark, h⟩,
      hplus⟩
    refine ⟨before, mark, digits, after, htext, hbefore, hafter, hmark,
      h.mono ?_⟩
    rintro c d byte hc (hpair | ⟨rfl, -⟩)
    · exact hpair
    · exact absurd (by simp [htext, hc]) hplus

/-- The reader with faults reads the same colours. -/
theorem ofHex_eq_ok_iff {text : String} {colour : Colour} :
    ofHex text = .ok colour ↔ ofHex? text = some colour := by
  unfold ofHex
  cases ofHex? text with
  | none => simp
  | some read => simp

/-- The colours that are read are those that are written, except that a plus
sign may stand in place of the first digit of a byte. Without such a sign
nothing but the notation is read, and the whole notation is. All else is
refused, with the text and no blanks around it. -/
theorem ofHex_exact (text : String) :
    (∀ colour, ofHex text = .ok colour ↔ IsWritten IsReadPair text colour)
      ∧ (∀ colour, IsWritten IsPair text colour ↔
          ofHex text = .ok colour ∧ '+' ∉ text.toList)
      ∧ ∀ fault, ofHex text = .error fault →
          fault = .colour (String.ofList (Text.trim text.toList))
            ∧ fault.kind = .parse := by
  have hread : ∀ colour, ofHex text = .ok colour ↔
      IsWritten IsReadPair text colour :=
    fun _ => ofHex_eq_ok_iff.trans ofHex?_eq_some_iff
  refine ⟨hread, fun colour => ?_, fun fault hfault => ?_⟩
  · rw [hread, isWritten_isPair_iff]
  · unfold ofHex at hfault
    split at hfault
    · cases hfault
    · cases hfault
      exact ⟨rfl, rfl⟩

/-- Six characters that are not six digits, and yet a colour is read. -/
theorem signs_read_as_digits :
    ofHex "#+1+2+3" = .ok ⟨1, 2, 3, 255⟩
      ∧ ¬ ∃ colour, IsWritten IsPair "#+1+2+3" colour := by
  refine ⟨by decide, ?_⟩
  rintro ⟨colour, h⟩
  exact (isWritten_isPair_iff.1 h).2 (by decide)

end LayerPage.Colour
