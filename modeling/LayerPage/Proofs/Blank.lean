/-
Runs of characters. Every reader of this library takes the longest run of
characters with some property from the front of a text; `takeWhile_run`
and `dropWhile_run` say where such a run ends, and the other way round a
text is its longest run and a rest that does not go on with it.

Trimming takes runs of blanks off a text. A text without blanks at its
ends is not changed by it, and is what it leaves of itself between blanks.

Splitting at a mark and taking off the first or the last characters are
described by what they put apart: the text is its parts again.
-/
import LayerPage.Text.Blank

namespace LayerPage.Text

-- ================================================================= runs

/-- Whether a text does not start with a character that has a property. -/
def Stops (p : Char → Bool) (cs : List Char) : Prop :=
  ∀ c ∈ cs.head?, p c = false

theorem stops_nil (p : Char → Bool) : Stops p [] := by
  intro c hc
  cases hc

theorem stops_cons {p : Char → Bool} {c : Char} {cs : List Char} :
    Stops p (c :: cs) ↔ p c = false := by
  simp [Stops]

/-- A text stops where the first of its parts does, unless that is empty. -/
theorem stops_append {p : Char → Bool} {front back : List Char}
    (hne : front ≠ []) : Stops p (front ++ back) ↔ Stops p front := by
  cases front with
  | nil => exact absurd rfl hne
  | cons c front => rw [List.cons_append, stops_cons, stops_cons]

theorem takeWhile_of_stops {p : Char → Bool} {cs : List Char}
    (h : Stops p cs) : cs.takeWhile p = [] := by
  cases cs with
  | nil => rfl
  | cons c cs => rw [List.takeWhile_cons, stops_cons.1 h]; rfl

/-- Where a run stops at once all is left. -/
theorem dropWhile_of_stops {p : Char → Bool} {cs : List Char}
    (h : Stops p cs) : cs.dropWhile p = cs := by
  cases cs with
  | nil => rfl
  | cons c cs => rw [List.dropWhile_cons, stops_cons.1 h]; rfl

/-- The longest run of a text that is a run and then stops. -/
theorem takeWhile_run {p : Char → Bool} {run rest : List Char}
    (hrun : ∀ c ∈ run, p c = true) (hrest : Stops p rest) :
    (run ++ rest).takeWhile p = run := by
  rw [List.takeWhile_append_of_pos hrun, takeWhile_of_stops hrest,
    List.append_nil]

/-- What comes after the longest run. -/
theorem dropWhile_run {p : Char → Bool} {run rest : List Char}
    (hrun : ∀ c ∈ run, p c = true) (hrest : Stops p rest) :
    (run ++ rest).dropWhile p = rest := by
  rw [List.dropWhile_append_of_pos hrun, dropWhile_of_stops hrest]

theorem mem_takeWhile {p : Char → Bool} {cs : List Char} {c : Char}
    (h : c ∈ cs.takeWhile p) : p c = true :=
  List.all_eq_true.1 List.all_takeWhile c h

/-- A text that stops does so wherever it is cut off. -/
theorem Stops.takeWhile {p : Char → Bool} {cs : List Char} (h : Stops p cs)
    (q : Char → Bool) : Stops p (cs.takeWhile q) := by
  cases cs with
  | nil => exact stops_nil p
  | cons c cs =>
      rw [List.takeWhile_cons]
      split
      · exact stops_cons.2 (stops_cons.1 h)
      · exact stops_nil p

/-- After a run it stops. -/
theorem stops_dropWhile (p : Char → Bool) (cs : List Char) :
    Stops p (cs.dropWhile p) := by
  intro c hc
  have hstop := List.head?_dropWhile_not p cs
  rw [Option.mem_def.1 hc] at hstop
  simpa using hstop

-- ============================================================= trimming

/-- Every text is blanks and what trimming its start leaves. -/
theorem exists_blanks_trimStart (cs : List Char) :
    ∃ blanks, (∀ c ∈ blanks, isBlank c = true)
      ∧ cs = blanks ++ trimStart cs :=
  ⟨cs.takeWhile isBlank, fun _ => mem_takeWhile,
    (List.takeWhile_append_dropWhile).symm⟩

/-- No blank is left in front of a trimmed text. -/
theorem stops_trimStart (cs : List Char) : Stops isBlank (trimStart cs) :=
  stops_dropWhile isBlank cs

/-- Blanks in front are trimmed away, and no more. -/
theorem trimStart_blanks {blanks rest : List Char}
    (hblanks : ∀ c ∈ blanks, isBlank c = true)
    (hrest : Stops isBlank rest) : trimStart (blanks ++ rest) = rest :=
  dropWhile_run hblanks hrest

/-- A text that does not begin with a blank is not trimmed there. -/
theorem trimStart_of_stops {cs : List Char} (h : Stops isBlank cs) :
    trimStart cs = cs :=
  dropWhile_of_stops h

/-- Whether a text neither starts nor ends with a blank. -/
def IsTrimmed (cs : List Char) : Prop :=
  Stops isBlank cs ∧ Stops isBlank cs.reverse

/-- A text without blanks is trimmed as it is. -/
theorem isTrimmed_of_not_blank {cs : List Char}
    (h : ∀ c ∈ cs, isBlank c = false) : IsTrimmed cs := by
  constructor
  · intro c hc
    exact h c (List.mem_of_mem_head? hc)
  · intro c hc
    exact h c (List.mem_reverse.1 (List.mem_of_mem_head? hc))

/-- Blanks after a trimmed text are trimmed off. -/
theorem trim_blanks {cs blanks : List Char} (hne : cs ≠ [])
    (hcs : IsTrimmed cs) (hblanks : ∀ c ∈ blanks, isBlank c = true) :
    trim (cs ++ blanks) = cs := by
  have hend : ∀ c ∈ blanks.reverse, isBlank c = true :=
    fun c hc => hblanks c (List.mem_reverse.1 hc)
  rw [trim, trimStart_of_stops ((stops_append hne).2 hcs.1), trimEnd,
    List.reverse_append, dropWhile_run hend hcs.2, List.reverse_reverse]

/-- A text that does not start with a blank is what trimming leaves of it,
and blanks. -/
theorem exists_trim_blanks {cs : List Char} (h : Stops isBlank cs) :
    ∃ blanks, (∀ c ∈ blanks, isBlank c = true) ∧ cs = trim cs ++ blanks
      ∧ IsTrimmed (trim cs) := by
  have hsplit : cs = trim cs ++ (cs.reverse.takeWhile isBlank).reverse := by
    rw [trim, trimStart_of_stops h, trimEnd, ← List.reverse_append,
      List.takeWhile_append_dropWhile, List.reverse_reverse]
  refine ⟨_, ?_, hsplit, ?_, ?_⟩
  · intro c hc
    exact mem_takeWhile (List.mem_reverse.1 hc)
  · by_cases hne : trim cs = []
    · rw [hne]
      exact stops_nil isBlank
    · rw [hsplit] at h
      exact (stops_append hne).1 h
  · rw [trim, trimStart_of_stops h, trimEnd, List.reverse_reverse]
    exact stops_dropWhile isBlank cs.reverse

/-- Trimming starts with trimming the start. -/
theorem trim_trimStart (cs : List Char) : trim (trimStart cs) = trim cs := by
  rw [trim, trimStart_of_stops (stops_trimStart cs)]
  rfl

/-- Blanks around a trimmed text are trimmed off. -/
theorem trim_padded {before cs after : List Char} (hne : cs ≠ [])
    (hcs : IsTrimmed cs) (hbefore : ∀ c ∈ before, isBlank c = true)
    (hafter : ∀ c ∈ after, isBlank c = true) :
    trim (before ++ (cs ++ after)) = cs := by
  rw [← trim_trimStart,
    trimStart_blanks hbefore ((stops_append hne).2 hcs.1),
    trim_blanks hne hcs hafter]

/-- Every text is what trimming leaves of it, between blanks. -/
theorem exists_trim_padded (cs : List Char) :
    ∃ before after, (∀ c ∈ before, isBlank c = true)
      ∧ (∀ c ∈ after, isBlank c = true)
      ∧ cs = before ++ (trim cs ++ after) ∧ IsTrimmed (trim cs) := by
  obtain ⟨before, hbefore, hstart⟩ := exists_blanks_trimStart cs
  obtain ⟨after, hafter, hend, htrimmed⟩ :=
    exists_trim_blanks (stops_trimStart cs)
  rw [trim_trimStart] at hend htrimmed
  refine ⟨before, after, hbefore, hafter, ?_, htrimmed⟩
  rw [← hend]
  exact hstart

/-- There is no word in a text of blanks alone, and one in any other. -/
theorem firstWord?_eq_none_iff {cs : List Char} :
    firstWord? cs = none ↔ ∀ c ∈ cs, isBlank c = true := by
  obtain ⟨blanks, hblanks, hcs⟩ := exists_blanks_trimStart cs
  have hstops := stops_trimStart cs
  unfold firstWord?
  cases hrest : trimStart cs with
  | nil =>
      rw [hrest, List.append_nil] at hcs
      rw [hcs]
      exact iff_of_true rfl hblanks
  | cons c rest =>
      rw [hrest] at hcs hstops
      have hvisible := stops_cons.1 hstops
      rw [List.takeWhile_cons, hvisible, hcs]
      refine iff_of_false nofun fun hall => ?_
      have hblank := hall c (List.mem_append_right _ List.mem_cons_self)
      rw [hvisible] at hblank
      cases hblank

/-- There is a first word if not all is blank. -/
theorem firstWord?_isSome_iff {cs : List Char} :
    (firstWord? cs).isSome = true ↔ ∃ c ∈ cs, isBlank c = false := by
  rw [← Option.ne_none_iff_isSome, ne_eq, firstWord?_eq_none_iff]
  simp

-- ========================================================= taking apart

/-- A text is split where the mark is for the first time. -/
theorem splitAt?_eq_some_iff {mark : Char} {cs before after : List Char} :
    splitAt? mark cs = some (before, after)
      ↔ cs = before ++ mark :: after ∧ mark ∉ before := by
  induction cs generalizing before with
  | nil => simp [splitAt?]
  | cons c rest ih =>
      rw [splitAt?]
      by_cases hc : c = mark
      · subst hc
        rw [if_pos rfl]
        constructor
        · intro h
          cases h
          exact ⟨rfl, List.not_mem_nil⟩
        · rintro ⟨hsplit, hfree⟩
          cases before with
          | nil => cases hsplit; rfl
          | cons d before =>
              cases hsplit
              exact absurd List.mem_cons_self hfree
      · rw [if_neg hc, Option.map_eq_some_iff]
        constructor
        · rintro ⟨⟨before', after'⟩, hrest, h⟩
          cases h
          obtain ⟨rfl, hfree⟩ := ih.1 hrest
          refine ⟨rfl, ?_⟩
          rw [List.mem_cons]
          rintro (h | h)
          · exact hc h.symm
          · exact hfree h
        · rintro ⟨hsplit, hfree⟩
          cases before with
          | nil => cases hsplit; exact absurd rfl hc
          | cons d before =>
              cases hsplit
              exact ⟨(before, after), ih.2 ⟨rfl, fun h =>
                hfree (List.mem_cons_of_mem _ h)⟩, rfl⟩

/-- A mark can be dropped from a text that begins with it. -/
theorem dropFirst?_eq_some_iff {mark : Char} {cs rest : List Char} :
    dropFirst? mark cs = some rest ↔ cs = mark :: rest := by
  cases cs with
  | nil => simp [dropFirst?]
  | cons c cs => simp [dropFirst?]

/-- What is dropped is an ending, and the rest is what was in
front of it. -/
theorem dropEnding?_eq_some_iff {ending cs front : List Char} :
    dropEnding? ending cs = some front ↔ cs = front ++ ending := by
  unfold dropEnding?
  constructor
  · intro h
    split at h
    · next hsuffix =>
      obtain ⟨start, rfl⟩ := List.isSuffixOf_iff_suffix.1 hsuffix
      rw [List.length_append, Nat.add_sub_cancel, List.take_left] at h
      cases h
      rfl
    · cases h
  · rintro rfl
    have hsuffix : ending.isSuffixOf (front ++ ending) = true :=
      List.isSuffixOf_iff_suffix.2 (List.suffix_append front ending)
    rw [if_pos hsuffix, List.length_append, Nat.add_sub_cancel,
      List.take_left]

end LayerPage.Text
