/-
Names that cannot be read, and the place the fault points to: the text
before it is the beginning of some name, and with one more character it is
not (`parse_points`).

# Stuck readers

`IsStuck` is what every reader owes where it fails. What it has read
stays unreadable whatever comes after the next character (`stays`), since
no reader looks further than that; and without that character it can be
mended (`mends`): there is something to write that makes a whole piece of
it. Each reader is stuck wherever it fails, by what it calls before it.
-/
import LayerPage.Proofs.LayerName
import LayerPage.Proofs.NameCursor

namespace LayerPage.LayerName

open Text (isBlank Stops stops_cons stops_nil)

-- ======================================================== stuck readers

/-- Whether a reader has read a text and cannot go on from what comes next.
A piece is followed by anything that does not go on with it. -/
structure IsStuck {α : Type} (read : List Char → Reading α)
    (goesOn : Char → Bool) (front : List Char) (stop : Stop) : Prop where
  stays : ∀ rest, rest.head? = stop.rest.head? →
    read (front ++ rest) = .error ⟨stop.problem, rest⟩
  mends : ∃ more piece, ∀ rest, Stops goesOn rest →
    read (front ++ (more ++ rest)) = .ok (piece, rest)

/-- Texts that start with the same character stop alike. -/
theorem stops_congr {p : Char → Bool} {cs rest : List Char}
    (h : rest.head? = cs.head?) (hcs : Stops p cs) : Stops p rest := by
  unfold Stops
  rw [h]
  exact hcs

/-- Where a reader is stuck, so is one that calls it after other text. -/
theorem IsStuck.call {α β : Type} {read : List Char → Reading α}
    {read' : List Char → Reading β} {goesOn : Char → Bool}
    {before front : List Char} {stop : Stop} (f : α → β)
    (hcall : ∀ cs, read' (before ++ cs)
      = (read cs).map fun (piece, rest) => (f piece, rest))
    (h : IsStuck read goesOn front stop) :
    IsStuck read' goesOn (before ++ front) stop := by
  constructor
  · intro rest hhead
    rw [List.append_assoc, hcall, h.stays rest hhead]
    rfl
  · obtain ⟨more, piece, hmore⟩ := h.mends
    refine ⟨more, f piece, fun rest hrest => ?_⟩
    rw [List.append_assoc, hcall, hmore rest hrest]
    rfl

-- ================================================================= tags

/-- A tag that is not closed is reported where the letters end. -/
theorem readTag_unclosed {letters rest : List Char}
    (hletters : ∀ c ∈ letters, isLetter c = true)
    (hrest : Stops isLetter rest) (hclosed : Stops (· == '>') rest) :
    readTag ('<' :: (letters ++ rest)) = .error ⟨.unclosedTag, rest⟩ := by
  rw [readTag, Text.dropWhile_run hletters hrest]
  split
  · cases stops_cons.1 hclosed
  · rfl

/-- A tag fails in no other way. -/
theorem readTag_eq_error {cs : List Char} {stop : Stop}
    (h : readTag cs = .error stop) :
    ∃ front, cs = front ++ stop.rest
      ∧ IsStuck readTag (fun _ => false) front stop := by
  unfold readTag at h
  split at h
  · next body =>
    have hletters : ∀ c ∈ body.takeWhile isLetter, isLetter c = true :=
      fun c hc => Text.mem_takeWhile hc
    have hstops := Text.stops_dropWhile isLetter body
    have hsplit := List.takeWhile_append_dropWhile (p := isLetter) (l := body)
    split at h
    · cases h
    · next hother =>
      cases h
      refine ⟨'<' :: body.takeWhile isLetter, ?_, ?_, ?_⟩
      · rw [List.cons_append, hsplit]
      · intro rest hhead
        exact readTag_unclosed hletters (stops_congr hhead hstops)
          (stops_congr hhead (stops_of_ne_cons hother))
      · refine ⟨['>'], String.ofList (body.takeWhile isLetter),
          fun rest _ => ?_⟩
        have hclosed : Stops isLetter ('>' :: rest) :=
          stops_cons.2 (by decide)
        rw [List.cons_append, List.singleton_append, readTag,
          Text.takeWhile_run hletters hclosed,
          Text.dropWhile_run hletters hclosed]
        rfl
  · cases h

-- =============================================================== values

/-- A value without a quote is reported after the blanks. -/
theorem readValue_unquoted {blanks rest : List Char}
    (hblanks : ∀ c ∈ blanks, isBlank c = true) (hrest : Stops isBlank rest)
    (hquote : Stops (· == '"') rest) :
    readValue (blanks ++ rest) = .error ⟨.unquotedValue, rest⟩ := by
  rw [readValue, Text.trimStart_blanks hblanks hrest]
  split
  · cases stops_cons.1 hquote
  · rfl

/-- A quote that is not closed is reported at the end of the text. -/
theorem readValue_unterminated {blanks quoted : List Char}
    (hblanks : ∀ c ∈ blanks, isBlank c = true) (hquoted : '"' ∉ quoted) :
    readValue (blanks ++ '"' :: quoted)
      = .error ⟨.unterminatedValue, []⟩ := by
  have hrun : ∀ c ∈ quoted, (c != '"') = true := by
    intro c hc
    rw [bne_iff_ne]
    rintro rfl
    exact hquoted hc
  have hend := Text.dropWhile_run hrun (stops_nil _)
  rw [List.append_nil] at hend
  rw [readValue, Text.trimStart_blanks hblanks (stops_cons.2 (by decide))]
  simp only [hend]

/-- A value that fails is stuck where it stops. -/
theorem readValue_eq_error {cs : List Char} {stop : Stop}
    (h : readValue cs = .error stop) :
    ∃ front, cs = front ++ stop.rest
      ∧ IsStuck readValue isBlank front stop := by
  obtain ⟨blanks, hblanks, hcs⟩ := Text.exists_blanks_trimStart cs
  have hstops := Text.stops_trimStart cs
  have hnone : ∀ c ∈ ([] : List Char), isBlank c = true :=
    List.forall_mem_nil _
  unfold readValue at h
  split at h
  · next body hbody =>
    have hfree : '"' ∉ body.takeWhile (· != '"') :=
      fun hquote => absurd (Text.mem_takeWhile hquote) (by decide)
    split at h
    · cases h
    · next hother =>
      cases h
      -- only a quote ends a value, so the text is at its end
      have hend : body.dropWhile (· != '"') = [] := by
        have hstop := Text.stops_dropWhile (· != '"') body
        cases hrest : body.dropWhile (· != '"') with
        | nil => rfl
        | cons c rest =>
            rw [hrest, stops_cons, bne_eq_false_iff_eq] at hstop
            exact absurd (hstop ▸ hrest) (hother rest)
      have hquoted : body.takeWhile (· != '"') = body := by
        have hsplit := List.takeWhile_append_dropWhile (p := (· != '"'))
          (l := body)
        rwa [hend, List.append_nil] at hsplit
      rw [hquoted] at hfree
      rw [hbody] at hcs
      rw [hend]
      refine ⟨blanks ++ '"' :: body, ?_, ?_, ?_⟩
      · rw [List.append_nil]
        exact hcs
      · intro rest hhead
        rw [List.head?_eq_none_iff.1 hhead, List.append_nil]
        exact readValue_unterminated hblanks hfree
      · refine ⟨['"'], String.ofList body, fun rest hrest => ?_⟩
        rw [List.append_assoc]
        exact readValue_text hblanks hfree hnone hrest
  · next hother =>
    cases h
    refine ⟨blanks, hcs, ?_, ?_⟩
    · intro rest hhead
      exact readValue_unquoted hblanks (stops_congr hhead hstops)
        (stops_congr hhead (stops_of_ne_cons hother))
    · exact ⟨['"', '"'], "", fun rest hrest =>
        readValue_text hblanks List.not_mem_nil hnone hrest⟩

-- ============================================================== entries

/-- What does not go on with a key does not start with a blank. -/
theorem stops_isBlank_of_endsKey {rest : List Char}
    (h : Stops (!endsKey ·) rest) : Stops isBlank rest := by
  intro c hc
  have hends := h c hc
  cases hblank : isBlank c with
  | false => rfl
  | true => simp [endsKey_of_isBlank hblank] at hends

theorem trim_ne_nil {cs : List Char} (hne : cs ≠ [])
    (h : Stops isBlank cs) : Text.trim cs ≠ [] := by
  obtain ⟨blanks, hblanks, hcs, -⟩ := Text.exists_trim_blanks h
  intro hnil
  rw [hnil, List.nil_append] at hcs
  cases cs with
  | nil => exact hne rfl
  | cons c cs =>
      have hblank := hblanks c (hcs ▸ List.mem_cons_self)
      rw [stops_cons.1 h] at hblank
      cases hblank

/-- A key as it stands in a name, with any blanks after it. -/
structure IsRawKey (run : List Char) : Prop where
  nonempty : run ≠ []
  visible : Stops isBlank run
  chars : ∀ c ∈ run, (!endsKey c) = true

section

variable {blanks run rest : List Char}

/-- An entry without a key is reported after its blanks. -/
theorem readEntry_missingKey (hblanks : ∀ c ∈ blanks, isBlank c = true)
    (hrest : Stops (!endsKey ·) rest) :
    readEntry (blanks ++ rest) = .error ⟨.missingKey, rest⟩ := by
  unfold readEntry
  simp only
  rw [Text.trimStart_blanks hblanks (stops_isBlank_of_endsKey hrest),
    Text.takeWhile_of_stops hrest, Text.dropWhile_of_stops hrest]
  rfl

/-- A key without an equals sign is reported where it ends. -/
theorem readEntry_missingEquals (hblanks : ∀ c ∈ blanks, isBlank c = true)
    (hrun : IsRawKey run) (hrest : Stops (!endsKey ·) rest)
    (hequals : Stops (· == '=') rest) :
    readEntry (blanks ++ (run ++ rest)) = .error ⟨.missingEquals, rest⟩ := by
  have htrim := trim_ne_nil hrun.nonempty hrun.visible
  unfold readEntry
  simp only
  rw [Text.trimStart_blanks hblanks
      ((Text.stops_append hrun.nonempty).2 hrun.visible),
    Text.takeWhile_run hrun.chars hrest, Text.dropWhile_run hrun.chars hrest]
  split
  · next hempty => exact absurd hempty htrim
  · cases stops_cons.1 hequals
  · rfl

/-- Behind its equals sign an entry is read as its value is. -/
theorem readEntry_value (hblanks : ∀ c ∈ blanks, isBlank c = true)
    (hrun : IsRawKey run) (cs : List Char) :
    readEntry (blanks ++ (run ++ '=' :: cs))
      = (readValue cs).map fun (value, rest) =>
          ((String.ofList (Text.trim run), value), rest) := by
  have htrim := trim_ne_nil hrun.nonempty hrun.visible
  have hequals : Stops (!endsKey ·) ('=' :: cs) := stops_cons.2 (by decide)
  unfold readEntry
  simp only
  rw [Text.trimStart_blanks hblanks
      ((Text.stops_append hrun.nonempty).2 hrun.visible),
    Text.takeWhile_run hrun.chars hequals,
    Text.dropWhile_run hrun.chars hequals]
  split
  · next hempty => exact absurd hempty htrim
  · next hsame _ =>
    cases hsame
    rfl
  · next hother => exact absurd rfl (hother _)

/-- An entry with the empty value, behind its key. -/
theorem readEntry_empty (hblanks : ∀ c ∈ blanks, isBlank c = true)
    (hrun : IsRawKey run) (hrest : Stops isBlank rest) :
    readEntry (blanks ++ (run ++ '=' :: '"' :: '"' :: rest))
      = .ok ((String.ofList (Text.trim run), ""), rest) := by
  have hnone : ∀ c ∈ ([] : List Char), isBlank c = true :=
    List.forall_mem_nil _
  have hvalue : readValue ('"' :: '"' :: rest) = .ok ("", rest) :=
    readValue_text hnone List.not_mem_nil hnone hrest
  rw [readEntry_value hblanks hrun, hvalue]
  rfl

end

/-- An entry that fails is stuck where it stops. -/
theorem readEntry_eq_error {cs : List Char} {stop : Stop}
    (h : readEntry cs = .error stop) :
    ∃ front, cs = front ++ stop.rest
      ∧ IsStuck readEntry isBlank front stop := by
  obtain ⟨blanks, hblanks, hcs⟩ := Text.exists_blanks_trimStart cs
  have hvisible := (Text.stops_trimStart cs).takeWhile (!endsKey ·)
  have hchars : ∀ c ∈ (Text.trimStart cs).takeWhile (!endsKey ·),
      (!endsKey c) = true := fun c hc => Text.mem_takeWhile hc
  have hrest := Text.stops_dropWhile (!endsKey ·) (Text.trimStart cs)
  rw [← List.takeWhile_append_dropWhile (p := (!endsKey ·))
    (l := Text.trimStart cs)] at hcs
  generalize (Text.trimStart cs).takeWhile (!endsKey ·) = run
    at hcs hvisible hchars
  generalize (Text.trimStart cs).dropWhile (!endsKey ·) = rest at hcs hrest
  subst hcs
  -- either nothing was read as a key, or there is no equals sign after it,
  -- or the value fails
  by_cases hne : run = []
  · subst hne
    rw [List.nil_append, readEntry_missingKey hblanks hrest] at h
    cases h
    refine ⟨blanks, rfl, ?_, ⟨['a', '=', '"', '"'], ("a", ""), ?_⟩⟩
    · intro rest' hhead
      exact readEntry_missingKey hblanks (stops_congr hhead hrest)
    · have hkey : IsRawKey ['a'] :=
        ⟨List.cons_ne_nil _ _, stops_cons.2 (by decide),
          List.forall_mem_singleton.2 (by decide)⟩
      exact fun rest' hrest' => readEntry_empty hblanks hkey hrest'
  · have hkey : IsRawKey run := ⟨hne, hvisible, hchars⟩
    by_cases hequals : ∃ after, rest = '=' :: after
    · obtain ⟨after, rfl⟩ := hequals
      have hcall := readEntry_value hblanks hkey
      rw [hcall] at h
      cases hread : readValue after with
      | ok reading => rw [hread] at h; cases h
      | error stop' =>
          rw [hread] at h
          cases h
          obtain ⟨front, rfl, hstuck⟩ := readValue_eq_error hread
          refine ⟨blanks ++ (run ++ ['=']) ++ front, by simp, ?_⟩
          -- the value is stuck, and the entry calls it after key and sign
          refine hstuck.call
            (fun value => (String.ofList (Text.trim run), value)) ?_
          intro cs
          rw [← hcall]
          simp
    · have hstops : Stops (· == '=') rest :=
        stops_of_ne_cons fun after hafter => hequals ⟨after, hafter⟩
      rw [readEntry_missingEquals hblanks hkey hrest hstops] at h
      cases h
      refine ⟨blanks ++ run, (List.append_assoc ..).symm, ?_,
        ⟨['=', '"', '"'], (String.ofList (Text.trim run), ""), ?_⟩⟩
      · intro rest' hhead
        rw [List.append_assoc]
        exact readEntry_missingEquals hblanks hkey
          (stops_congr hhead hrest) (stops_congr hhead hstops)
      · intro rest' hrest'
        rw [List.append_assoc]
        exact readEntry_empty hblanks hkey hrest'

/-- The blanks after an entry are read with it. -/
theorem readEntry_stops {cs rest : List Char} {pair : String × String}
    (h : readEntry cs = .ok (pair, rest)) : Stops isBlank rest := by
  have hvalue : ∀ {cs rest value}, readValue cs = .ok (value, rest) →
      Stops isBlank rest := by
    intro cs rest value h
    unfold readValue at h
    split at h
    · split at h
      · cases h
        exact Text.stops_trimStart _
      · cases h
    · cases h
  unfold readEntry at h
  simp only at h
  split at h
  · cases h
  · next after _ _ =>
    cases hread : readValue after with
    | error stop => rw [hread] at h; cases h
    | ok reading =>
        rw [hread] at h
        cases h
        exact hvalue hread
  · cases h

/-- Behind an entry and a comma, entries are read as those after it are. -/
theorem readEntries_next (e : WrittenEntry) (cs : List Char) :
    readEntries (e.text ++ ',' :: cs)
      = (readEntries cs).map fun (entries, rest) =>
          (e.pair :: entries, rest) := by
  have hstops : Stops isBlank (',' :: cs) := stops_cons.2 (by decide)
  rw [readEntries_eq, readEntry_text e hstops]
  rfl

/-- After an entry there is a comma or the end of the clause; anything else
is reported where it stands. -/
theorem readEntries_unseparated (e : WrittenEntry) {rest : List Char}
    (hrest : Stops isBlank rest) (hbracket : Stops (· == ']') rest)
    (hcomma : Stops (· == ',') rest) :
    readEntries (e.text ++ rest) = .error ⟨.unseparatedEntry, rest⟩ := by
  rw [readEntries_eq, readEntry_text e hrest]
  split
  · next h => cases h
  · next h => cases h; cases stops_cons.1 hbracket
  · next h => cases h; cases stops_cons.1 hcomma
  · next h => cases h; rfl

/-- Entries fail at the first one that does, or at what separates them. The
induction follows the reader, and what was read before goes in front. -/
theorem readEntries_eq_error {cs : List Char} {stop : Stop}
    (h : readEntries cs = .error stop) :
    ∃ front, cs = front ++ stop.rest
      ∧ IsStuck readEntries (fun _ => false) front stop := by
  induction hlength : cs.length using Nat.strongRecOn generalizing cs with
  | _ length ih =>
      subst hlength
      rw [readEntries_eq] at h
      split at h
      · next stop' hread =>
        cases h
        obtain ⟨front, hcs, hstuck⟩ := readEntry_eq_error hread
        refine ⟨front, hcs, ?_, ?_⟩
        · intro rest hhead
          rw [readEntries_eq, hstuck.stays rest hhead]
        · obtain ⟨more, pair, hmore⟩ := hstuck.mends
          -- the mended entry is the last one if a bracket closes the
          -- clause
          refine ⟨more ++ [']'], [pair], fun rest _ => ?_⟩
          have hbracket : Stops isBlank (']' :: rest) :=
            stops_cons.2 (by decide)
          rw [List.append_assoc, List.singleton_append, readEntries_eq,
            hmore _ hbracket]
          rfl
      · cases h
      · next pair after hread =>
        obtain ⟨e, hcs, -⟩ := readEntry_eq_ok hread
        cases hmore : readEntries after with
        | ok reading => rw [hmore] at h; cases h
        | error stop' =>
            rw [hmore] at h
            cases h
            -- the text after an entry and its comma is shorter
            have hshorter : after.length < cs.length := by
              have := readEntry_length hread
              rw [List.length_cons] at this
              omega
            obtain ⟨front, rfl, hstuck⟩ := ih after.length hshorter hmore rfl
            refine ⟨e.text ++ [','] ++ front, by simp [hcs], ?_⟩
            refine hstuck.call (fun entries => e.pair :: entries) ?_
            intro cs
            rw [← readEntries_next, List.append_assoc, List.singleton_append]
      · next pair after hbracket hcomma hread =>
        cases h
        obtain ⟨e, hcs, -⟩ := readEntry_eq_ok hread
        refine ⟨e.text, hcs, ?_, ⟨[']'], [e.pair], ?_⟩⟩
        · intro rest hhead
          exact readEntries_unseparated e
            (stops_congr hhead (readEntry_stops hread))
            (stops_congr hhead (stops_of_ne_cons hbracket))
            (stops_congr hhead (stops_of_ne_cons hcomma))
        · intro rest _
          have hlast := readEntries_joined e [] rest
          rwa [joined, List.flatMap_nil, List.append_nil] at hlast

-- ============================================================== clauses

/-- Where a clause is closed at once there is no first entry. -/
theorem readEntries_of_closed {cs tail : List Char}
    (h : Text.trimStart cs = ']' :: tail) :
    readEntries cs = .error ⟨.missingKey, ']' :: tail⟩ := by
  have hclosed : Stops (!endsKey ·) (']' :: tail) :=
    stops_cons.2 (by decide)
  have hentry := readEntry_missingKey (List.forall_mem_nil _) hclosed
  rw [List.nil_append] at hentry
  rw [← readEntries_trimStart, h, readEntries_eq, hentry]

/-- A clause that is not closed at once is read as its entries are. -/
theorem readClause_entries {cs : List Char}
    (h : Stops (· == ']') (Text.trimStart cs)) :
    readClause ('[' :: cs) = readEntries cs := by
  rw [readClause]
  split
  · next hclosed =>
    rw [hclosed] at h
    cases stops_cons.1 h
  · exact readEntries_trimStart cs

/-- A clause fails in its entries. -/
theorem readClause_eq_error {cs : List Char} {stop : Stop}
    (h : readClause cs = .error stop) :
    ∃ front, cs = '[' :: (front ++ stop.rest)
      ∧ IsStuck readClause (fun _ => false) ('[' :: front) stop := by
  have hstops : ∀ cs, (∀ tail, Text.trimStart cs ≠ ']' :: tail) →
      Stops (· == ']') (Text.trimStart cs) :=
    fun cs hother => stops_of_ne_cons hother
  unfold readClause at h
  split at h
  · next body =>
    split at h
    · cases h
    · next hother =>
      rw [readEntries_trimStart] at h
      obtain ⟨front, rfl, hstuck⟩ := readEntries_eq_error h
      refine ⟨front, rfl, ?_, ?_⟩
      · intro rest hhead
        have hread := hstuck.stays rest hhead
        rw [List.cons_append, readClause_entries ?_]
        · exact hread
        · refine hstops _ fun tail hclosed => ?_
          -- a bracket after the blanks would be what comes next
          rw [readEntries_of_closed hclosed] at hread
          injection hread with hstop
          obtain ⟨-, rfl⟩ := Stop.mk.inj hstop
          obtain ⟨blanks, hblanks, hsplit⟩ :=
            Text.exists_blanks_trimStart (front ++ ']' :: tail)
          rw [hclosed] at hsplit
          have hfront := List.append_cancel_right hsplit
          subst hfront
          cases hrest : stop.rest with
          | nil => rw [hrest] at hhead; cases hhead
          | cons c after =>
              rw [hrest] at hhead
              cases hhead
              apply hother after
              rw [hrest]
              exact Text.trimStart_blanks hblanks (stops_cons.2 (by decide))
      · obtain ⟨more, entries, hmore⟩ := hstuck.mends
        refine ⟨more, entries, fun rest hrest => ?_⟩
        have hread := hmore rest hrest
        rw [List.cons_append, readClause_entries ?_]
        · exact hread
        · refine hstops _ fun tail hclosed => ?_
          rw [readEntries_of_closed hclosed] at hread
          cases hread
  · cases h

-- ================================================================ names

/-- A text in which no tag clause is read does not start with one. -/
theorem stops_of_readTag {cs : List Char} {tag : String}
    (h : readTag cs = .ok (tag, cs)) : Stops (· == '<') cs := by
  refine stops_of_ne_cons fun body hcs => ?_
  subst hcs
  rw [readTag] at h
  split at h
  · next after hafter =>
    have hlength := (List.dropWhile_suffix isLetter (l := body)).length_le
    rw [hafter, (Prod.mk.inj (Except.ok.inj h)).2, List.length_cons,
      List.length_cons] at hlength
    omega
  · cases h

/-- A text in which no entry clause is read does not start with one. -/
theorem stops_of_readClause {cs : List Char}
    {pairs : List (String × String)} (h : readClause cs = .ok (pairs, cs)) :
    Stops (· == '[') cs := by
  refine stops_of_ne_cons fun body hcs => ?_
  subst hcs
  have hlength := (List.dropWhile_suffix isBlank (l := body)).length_le
  rw [readClause] at h
  split at h
  · next after hafter =>
    obtain ⟨-, rfl⟩ := Prod.mk.inj (Except.ok.inj h)
    rw [Text.trimStart] at hafter
    rw [hafter, List.length_cons, List.length_cons] at hlength
    omega
  · obtain ⟨first, more, htext, -⟩ := readEntries_eq_ok h
    rw [Text.trimStart] at htext
    rw [htext, List.length_append, List.length_cons,
      List.length_cons] at hlength
    omega

/-- An opening is followed by all that starts with the same character. -/
theorem IsOpening.congr {letters? : Option (List Char)}
    {identifier cs rest : List Char} (h : IsOpening letters? identifier cs)
    (hhead : rest.head? = cs.head?) :
    IsOpening letters? identifier rest := by
  refine ⟨h.letters, h.chars, stops_congr hhead h.ends, fun hnone => ?_⟩
  refine stops_congr ?_ (h.starts hnone)
  rw [List.head?_append, List.head?_append, hhead]

/-- What follows a tag begins with an identifier, as far as one can be
read. -/
theorem exists_isOpening {cs body : List Char} {tag : String}
    (h : readTag cs = .ok (tag, body)) :
    ∃ letters? identifier rest, cs = tagText letters? ++ (identifier ++ rest)
      ∧ IsOpening letters? identifier rest := by
  obtain ⟨letters?, hletters, hcs, -⟩ := readTag_eq_ok h
  have hsplit := List.takeWhile_append_dropWhile (p := isIdentifierChar)
    (l := body)
  refine ⟨letters?, body.takeWhile isIdentifierChar,
    body.dropWhile isIdentifierChar, by rw [hsplit]; exact hcs, hletters,
    fun c hc => Text.mem_takeWhile hc, Text.stops_dropWhile _ _, ?_⟩
  rintro rfl
  rw [hsplit]
  rw [tagText, List.nil_append] at hcs
  subst hcs
  exact stops_of_readTag h

/-- Whether a name has been read up to a place behind which nothing makes
it a name, and yet is the start of one. -/
structure IsStuckName (front : List Char) (stop : Stop) : Prop where
  stays : ∀ rest, rest.head? = stop.rest.head? →
    readName (front ++ rest) = .error ⟨stop.problem, rest⟩
  mends : ∃ more name, readName (front ++ more) = .ok name

/-- A name that fails in its tag is stuck there. -/
theorem isStuckName_of_readTag {front : List Char} {stop : Stop}
    (h : IsStuck readTag (fun _ => false) front stop) :
    IsStuckName front stop := by
  constructor
  · intro rest hhead
    simp only [readName, h.stays rest hhead, bind, Except.bind]
  · obtain ⟨more, tag, hmore⟩ := h.mends
    have hread := hmore [] (stops_nil _)
    rw [List.append_nil] at hread
    refine ⟨more, ⟨tag, "", SortedMap.ofList []⟩, ?_⟩
    simp only [readName, hread, bind, Except.bind]
    rfl

/-- A name that fails in its clause is stuck there, with tag and identifier
in front. -/
theorem isStuckName_of_readClause {letters? : Option (List Char)}
    {identifier front : List Char} {stop : Stop}
    (hopening : IsOpening letters? identifier ['['])
    (h : IsStuck readClause (fun _ => false) ('[' :: front) stop) :
    IsStuckName (tagText letters? ++ (identifier ++ '[' :: front)) stop := by
  have hread : ∀ cs, readName (tagText letters? ++ (identifier ++ '[' :: cs))
      = _ := fun cs => readName_opening (hopening.congr rfl)
  constructor
  · intro rest hhead
    have hclause := h.stays rest hhead
    rw [List.cons_append] at hclause
    rw [List.append_assoc, List.append_assoc, List.cons_append, hread,
      hclause]
  · obtain ⟨more, entries, hmore⟩ := h.mends
    have hclause := hmore [] (stops_nil _)
    rw [List.append_nil, List.cons_append] at hclause
    have hname := hread (front ++ more)
    rw [hclause] at hname
    refine ⟨more, _, (congrArg readName ?_).trans hname⟩
    rw [List.append_assoc, List.append_assoc, List.cons_append]

/-- The name that an opening and an entry clause make. -/
def IsOpening.spelling {letters? : Option (List Char)}
    {identifier cs : List Char} (h : IsOpening letters? identifier cs)
    (clause : Clause) : Spelling where
  letters? := letters?
  identifier := identifier
  clause := clause
  tag_chars := h.letters
  identifier_chars c hc := isIdentifierChar_iff.1 (h.chars c hc)

/-- Behind a name nothing can follow, except what goes on with it. -/
theorem isStuckName_trailing {letters? : Option (List Char)}
    {identifier rest : List Char} {clause : Clause}
    (hopening : IsOpening letters? identifier (clause.text ++ rest))
    (hclause : clause = .absent → Stops (· == '[') rest) (hne : rest ≠ []) :
    IsStuckName (tagText letters? ++ (identifier ++ clause.text))
      ⟨.trailingText, rest⟩ := by
  constructor
  · intro rest' hhead
    have hsame : (clause.text ++ rest').head? = (clause.text ++ rest).head? := by
      rw [List.head?_append, List.head?_append, hhead]
    have hread := readClause_text clause fun habsent =>
      stops_congr hhead (hclause habsent)
    rw [List.append_assoc, List.append_assoc,
      readName_opening (hopening.congr hsame), hread]
    cases rest' with
    | nil => exact absurd (List.head?_eq_none_iff.1 hhead.symm) hne
    | cons c rest' => rfl
  · refine ⟨[], (hopening.spelling clause).name, ?_⟩
    rw [List.append_nil]
    exact readName_text (hopening.spelling clause)

/-- A name that cannot be read is stuck where it stops. -/
theorem readName_eq_error {cs : List Char} {stop : Stop}
    (h : readName cs = .error stop) :
    ∃ front, cs = front ++ stop.rest ∧ IsStuckName front stop := by
  -- the tag fails, or the clause, or something follows the name
  cases htag : readTag cs with
  | error stop' =>
      have hstop : stop' = stop := by
        simp only [readName, htag, bind, Except.bind] at h
        exact Except.error.inj h
      subst hstop
      obtain ⟨front, hcs, hstuck⟩ := readTag_eq_error htag
      exact ⟨front, hcs, isStuckName_of_readTag hstuck⟩
  | ok reading =>
      obtain ⟨letters?, identifier, body, rfl, hopening⟩ :=
        exists_isOpening htag
      rw [readName_opening hopening] at h
      cases hclause : readClause body with
      | error stop' =>
          rw [hclause] at h
          cases h
          obtain ⟨front, rfl, hstuck⟩ := readClause_eq_error hclause
          refine ⟨_, ?_, isStuckName_of_readClause (hopening.congr rfl)
            hstuck⟩
          simp
      | ok reading =>
          obtain ⟨pairs, rest⟩ := reading
          obtain ⟨clause, rfl, -⟩ := readClause_eq_ok hclause
          rw [hclause] at h
          cases rest with
          | nil => cases h
          | cons c rest =>
              cases h
              refine ⟨_, ?_, isStuckName_trailing hopening ?_
                (List.cons_ne_nil c rest)⟩
              · simp
              · rintro rfl
                exact stops_of_readClause hclause

-- =============================================================== places

/-- Whether a text is the start of a name. -/
def IsViable (text : String) : Prop :=
  ∃ more name, parse (text ++ more) = .ok name

/-- Whether a source breaks off at an offset, in bytes: up to there it is
the start of a name, and with the next character, if there is one, it is
not. -/
structure BreaksAt (source : String) (offset : Nat) : Prop where
  le_size : offset ≤ source.utf8ByteSize
  boundary : (⟨offset⟩ : String.Pos.Raw).IsValid source
  longest : ∃ front back, source = front ++ back
    ∧ front.utf8ByteSize = offset ∧ IsViable front
    ∧ ∀ c rest, back = String.singleton c ++ rest →
        ¬ IsViable (front.push c)

/-- A name breaks off where reading it is stuck. -/
theorem breaksAt_of_isStuckName {front : List Char} {stop : Stop}
    (h : IsStuckName front stop) :
    BreaksAt (String.ofList (front ++ stop.rest)) (Text.utf8Size front) := by
  rw [String.ofList_append, Text.utf8Size_eq]
  refine ⟨?_, ?_, _, _, rfl, rfl, ?_, ?_⟩
  · rw [String.utf8ByteSize_append]
    exact Nat.le_add_right _ _
  · exact String.Pos.Raw.isValid_iff_exists_append.2 ⟨_, _, rfl, rfl⟩
  · obtain ⟨more, name, hname⟩ := h.mends
    refine ⟨String.ofList more, name, ?_⟩
    rw [parse_eq_ok_iff, String.toList_append, String.toList_ofList,
      String.toList_ofList]
    exact hname
  · rintro c rest hrest ⟨more, name, hname⟩
    have hnext := congrArg String.toList hrest
    rw [String.toList_ofList, String.toList_append,
      String.toList_singleton] at hnext
    have hbroken := h.stays (c :: more.toList) (by rw [hnext]; rfl)
    rw [parse_eq_ok_iff, String.toList_append, String.toList_push,
      String.toList_ofList, List.append_assoc, List.singleton_append,
      hbroken] at hname
    cases hname

/-- The fault of a name that cannot be read gives the place where it breaks
off. The reader by position comes to it, and takes no slice on its way that
does not exist. -/
theorem parse_points (source : String) :
    parse? source = some (parse source)
      ∧ ∀ fault, parse source = .error fault →
          ∃ offset problem, fault = .layerName source offset problem
            ∧ BreaksAt source offset := by
  refine ⟨parse?_eq source, fun fault hfault => ?_⟩
  cases hread : readName source.toList with
  | ok name => simp [parse, hread] at hfault
  | error stop =>
      obtain ⟨front, hsource, hstuck⟩ := readName_eq_error hread
      have hbreaks := breaksAt_of_isStuckName hstuck
      rw [← hsource, String.ofList_toList] at hbreaks
      simp only [parse, hread] at hfault
      cases hfault
      refine ⟨_, _, rfl, ?_⟩
      rw [hsource, Text.utf8Size_append, Nat.add_sub_cancel]
      exact hbreaks

example : parse "box[é=\"x\" ?"
    = .error (.layerName "box[é=\"x\" ?" 11 .unseparatedEntry) := by
  cbv

end LayerPage.LayerName
