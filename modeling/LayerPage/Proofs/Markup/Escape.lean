/-
Escaping and its inverse. Escaping replaces one character after another
in the whole text, the ampersand first, so that the ampersands of the
entities are not replaced themselves. The outcome is the same as with one
replacement of every character by its entity (`escapeChars_eq_flatMap`),
and all that is said about escaped texts follows from that: what is in
them, and that `unescape` reads them back.
-/
import LayerPage.Markup

namespace LayerPage.Markup

-- ============================================================ entities

/-- What is written for a character: an entity, if it has one. -/
def entity (c : Char) : List Char :=
  if c = '&' then "&amp;".toList
  else if c = '"' then "&quot;".toList
  else if c = '<' then "&lt;".toList
  else if c = '>' then "&gt;".toList
  else [c]

/-- A character without an entity. -/
theorem entity_of_plain {c : Char} (hamp : c ≠ '&') (hquot : c ≠ '"')
    (hlt : c ≠ '<') (hgt : c ≠ '>') : entity c = [c] := by
  rw [entity, if_neg hamp, if_neg hquot, if_neg hlt, if_neg hgt]

/-- Statements about entities are proved for the four characters that have
one, and for those that stand for themselves. -/
theorem entity_cases {P : Char → List Char → Prop}
    (hamp : P '&' ['&', 'a', 'm', 'p', ';'])
    (hquot : P '"' ['&', 'q', 'u', 'o', 't', ';'])
    (hlt : P '<' ['&', 'l', 't', ';']) (hgt : P '>' ['&', 'g', 't', ';'])
    (hplain : ∀ c, c ≠ '&' → c ≠ '"' → c ≠ '<' → c ≠ '>' → P c [c])
    (c : Char) : P c (entity c) := by
  by_cases h₁ : c = '&'
  · subst h₁
    exact hamp
  by_cases h₂ : c = '"'
  · subst h₂
    exact hquot
  by_cases h₃ : c = '<'
  · subst h₃
    exact hlt
  by_cases h₄ : c = '>'
  · subst h₄
    exact hgt
  rw [entity_of_plain h₁ h₂ h₃ h₄]
  exact hplain c h₁ h₂ h₃ h₄

theorem escapeChars_append (cs ds : List Char) :
    escapeChars (cs ++ ds) = escapeChars cs ++ escapeChars ds := by
  unfold escapeChars Text.replaceChar
  simp only [List.flatMap_append]

/-- What the four replacements make of one character. -/
theorem escapeChars_singleton (c : Char) : escapeChars [c] = entity c := by
  refine entity_cases (P := fun c written => escapeChars [c] = written)
    ?_ ?_ ?_ ?_ ?_ c
  · decide
  · decide
  · decide
  · decide
  · intro c hamp hquot hlt hgt
    simp only [escapeChars, Text.replaceChar, List.flatMap_cons,
      List.flatMap_nil, List.append_nil, if_neg hamp, if_neg hquot,
      if_neg hlt, if_neg hgt]

/-- Replacing the four characters in turn is replacing each character by
its entity. -/
theorem escapeChars_eq_flatMap (cs : List Char) :
    escapeChars cs = cs.flatMap entity := by
  induction cs with
  | nil => rfl
  | cons c cs ih =>
      rw [List.flatMap_cons, ← escapeChars_singleton, ← ih,
        ← escapeChars_append]
      rfl

/-- An escaped text has no character in it that could end a quoted value
or a tag. -/
theorem not_mem_escapeChars {c : Char} (hc : c ∈ ['"', '<', '>'])
    (cs : List Char) : c ∉ escapeChars cs := by
  rw [List.mem_cons, List.mem_cons, List.mem_singleton] at hc
  rw [escapeChars_eq_flatMap, List.mem_flatMap]
  rintro ⟨d, -, hmem⟩
  revert hmem
  refine entity_cases (P := fun _ written => c ∉ written) ?_ ?_ ?_ ?_ ?_ d
  · rcases hc with rfl | rfl | rfl <;> decide
  · rcases hc with rfl | rfl | rfl <;> decide
  · rcases hc with rfl | rfl | rfl <;> decide
  · rcases hc with rfl | rfl | rfl <;> decide
  · intro d _ hquot hlt hgt hmem
    rw [List.mem_singleton] at hmem
    subst hmem
    rcases hc with h | h | h
    · exact hquot h
    · exact hlt h
    · exact hgt h

-- ========================================================== ampersands

/-- The four entities. -/
def entities : List (List Char) :=
  ["&amp;".toList, "&quot;".toList, "&lt;".toList, "&gt;".toList]

/-- An ampersand is written at the start of an entity only. -/
theorem entity_of_ampersand {c : Char} {front back : List Char}
    (h : entity c = front ++ '&' :: back) :
    front = [] ∧ entity c ∈ entities := by
  have hfirst : ∀ {d : Char} {tail : List Char}, '&' ∉ tail →
      d :: tail = front ++ '&' :: back → front = [] := by
    intro d tail htail heq
    cases front with
    | nil => rfl
    | cons d' front =>
        refine absurd ?_ htail
        rw [(List.cons.inj heq).2]
        simp
  revert h
  refine entity_cases (P := fun _ written =>
    written = front ++ '&' :: back → front = [] ∧ written ∈ entities)
    ?_ ?_ ?_ ?_ ?_ c
  · exact fun heq => ⟨hfirst (by decide) heq, by decide⟩
  · exact fun heq => ⟨hfirst (by decide) heq, by decide⟩
  · exact fun heq => ⟨hfirst (by decide) heq, by decide⟩
  · exact fun heq => ⟨hfirst (by decide) heq, by decide⟩
  · intro c hamp _ _ _ heq
    have hmem : '&' ∈ [c] := by
      rw [heq]
      simp
    exact absurd (List.mem_singleton.1 hmem).symm hamp

/-- Every ampersand of an escaped text starts an entity. -/
theorem exists_entity_of_escapeChars {cs front back : List Char}
    (h : escapeChars cs = front ++ '&' :: back) :
    ∃ written ∈ entities, written <+: '&' :: back := by
  rw [escapeChars_eq_flatMap] at h
  induction cs generalizing front with
  | nil => simp at h
  | cons c cs ih =>
      rw [List.flatMap_cons, List.append_eq_append_iff] at h
      rcases h with ⟨front', -, hlater⟩ | ⟨within, hwithin, hback⟩
      · exact ih hlater
      · cases within with
        | nil =>
            rw [List.nil_append] at hback
            exact @ih [] hback.symm
        | cons d within =>
            obtain rfl : '&' = d := (List.cons.inj hback).1
            obtain ⟨rfl, hentity⟩ := entity_of_ampersand hwithin
            rw [List.nil_append] at hwithin
            refine ⟨entity c, hentity, ?_⟩
            rw [hback, hwithin]
            exact List.prefix_append ..

-- ======================================================== reading back

/-- Read the four entities. Any other ampersand stands for itself. -/
def unescape : List Char → List Char
  | '&' :: 'a' :: 'm' :: 'p' :: ';' :: cs => '&' :: unescape cs
  | '&' :: 'q' :: 'u' :: 'o' :: 't' :: ';' :: cs => '"' :: unescape cs
  | '&' :: 'l' :: 't' :: ';' :: cs => '<' :: unescape cs
  | '&' :: 'g' :: 't' :: ';' :: cs => '>' :: unescape cs
  | c :: cs => c :: unescape cs
  | [] => []

theorem unescape_cons {c : Char} (h : c ≠ '&') (cs : List Char) :
    unescape (c :: cs) = c :: unescape cs := by
  rw [unescape]
  all_goals
    intro _ heq
    exact absurd heq h

theorem unescape_entity_append (c : Char) (cs : List Char) :
    unescape (entity c ++ cs) = c :: unescape cs := by
  refine entity_cases
    (P := fun c written => unescape (written ++ cs) = c :: unescape cs)
    ?_ ?_ ?_ ?_ ?_ c
  · rfl
  · rfl
  · rfl
  · rfl
  · intro c hamp _ _ _
    exact unescape_cons hamp cs

/-- What was escaped can be read back. -/
theorem unescape_escapeChars (cs : List Char) :
    unescape (escapeChars cs) = cs := by
  rw [escapeChars_eq_flatMap]
  induction cs with
  | nil => rfl
  | cons c cs ih => rw [List.flatMap_cons, unescape_entity_append, ih]

end LayerPage.Markup
