/-
Reading names by position. A reader of names holds the characters that are
left; here it holds the source and a position in it, counted in bytes, and
takes slices of the source from there. A slice from inside a character
does not exist, and then there is no outcome at all; nor is there one if
the loop over entries does not end. `parse?_eq` says that there always is
one, and that it is what the readers of characters give.

What carries the proof is that the position is always the place of a
suffix of the source (`place`): the readers agree from each such place on,
one after another, and every slice they take is one that exists.
-/
import LayerPage.LayerName.Parser
import LayerPage.Proofs.LayerName

namespace LayerPage

namespace Text

/-- Split a text behind a number of bytes. There is nothing to split where
the text is shorter, or where the place lies inside a character. -/
def splitBytes? : Nat → List Char → Option (List Char × List Char)
  | 0, cs => some ([], cs)
  | _ + 1, [] => none
  | size + 1, c :: cs =>
    if c.utf8Size ≤ size + 1 then
      (splitBytes? (size + 1 - c.utf8Size) cs).map fun (front, back) =>
        (c :: front, back)
    else none

theorem utf8Size_append (front back : List Char) :
    utf8Size (front ++ back) = utf8Size front + utf8Size back := by
  induction front with
  | nil => rw [List.nil_append, utf8Size, Nat.zero_add]
  | cons c front ih =>
      rw [List.cons_append, utf8Size, utf8Size, ih, Nat.add_assoc]

theorem utf8Size_eq (cs : List Char) :
    utf8Size cs = (String.ofList cs).utf8ByteSize := by
  induction cs with
  | nil => rfl
  | cons c cs ih =>
      rw [utf8Size, ih, String.ofList_cons, String.utf8ByteSize_append,
        String.utf8ByteSize_singleton]

/-- Between two of its parts a text can be split. -/
theorem splitBytes?_append (front back : List Char) :
    splitBytes? (utf8Size front) (front ++ back) = some (front, back) := by
  induction front with
  | nil => simp [utf8Size, splitBytes?]
  | cons c front ih =>
      obtain ⟨size, hsize⟩ : ∃ size, c.utf8Size = size + 1 :=
        Nat.exists_eq_add_one.2 c.utf8Size_pos
      have hsplit : utf8Size (c :: front) = size + utf8Size front + 1 := by
        rw [utf8Size, hsize]
        omega
      have hrest : size + utf8Size front + 1 - c.utf8Size
          = utf8Size front := by
        omega
      rw [hsplit, List.cons_append, splitBytes?, if_pos (by omega), hrest, ih]
      rfl

end Text

namespace LayerName

open Text (Stops splitBytes? utf8Size)

-- ============================================================== readers

/-- Reading from a position on, which is moved; there is no outcome where a
slice is taken that does not exist. -/
abbrev ByteReader (α : Type) := ExceptT Problem (StateT Nat Option) α

namespace ByteReader

/-- A slice of a text, if it exists. -/
def slice (part? : Option (List Char)) : ByteReader (List Char) :=
  ExceptT.lift (StateT.lift part?)

variable (source : List Char)

/-- The slice from the position to the end. -/
def rest : ByteReader (List Char) := do
  slice ((splitBytes? (← get) source).map Prod.snd)

/-- Step over a character, if it comes next. -/
def eat (mark : Char) : ByteReader Bool := do
  let rest ← rest source
  if rest.head? = some mark then
    modify (· + mark.utf8Size)
    return true
  else
    return false

/-- Step over a run of characters, and take it as a slice. -/
def takeWhile (p : Char → Bool) : ByteReader (List Char) := do
  let rest ← rest source
  let size := utf8Size (rest.takeWhile p)
  modify (· + size)
  slice ((splitBytes? size rest).map Prod.fst)

/-- Passing over blanks. -/
def skipBlanks : ByteReader Unit := do
  let _ ← takeWhile source Text.isBlank

/-- Go on only if a character comes next. -/
def expect (mark : Char) (problem : Problem) : ByteReader Unit := do
  if ← eat source mark then
    return ()
  else
    throw problem

/-- Reading a tag in angle brackets, or the default one. -/
def tag : ByteReader String := do
  if ← eat source '<' then
    let letters ← takeWhile source isLetter
    expect source '>' .unclosedTag
    return String.ofList letters
  else
    return defaultTag

/-- Reading a quoted value with the blanks around it. -/
def value : ByteReader String := do
  skipBlanks source
  expect source '"' .unquotedValue
  let value ← takeWhile source (· != '"')
  expect source '"' .unterminatedValue
  skipBlanks source
  return String.ofList value

/-- Reading an entry: a key, an equals sign and a value. -/
def entry : ByteReader (String × String) := do
  skipBlanks source
  let key ← takeWhile source (!endsKey ·)
  if Text.trim key = [] then
    throw .missingKey
  else
    expect source '=' .missingEquals
    let value ← value source
    return (String.ofList (Text.trim key), value)

/-- The loop over entries, which may go round so many times. If it had to go
on after that, there would be no outcome. -/
def entries : (rounds : Nat) → ByteReader (List (String × String))
  | 0 => ExceptT.lift (StateT.lift none)
  | rounds + 1 => do
    let first ← entry source
    if ← eat source ']' then
      return [first]
    else
      expect source ',' .unseparatedEntry
      let more ← entries rounds
      return first :: more

/-- Reading the entries of a name, if there are any. -/
def clause : ByteReader (List (String × String)) := do
  if ← eat source '[' then
    skipBlanks source
    if ← eat source ']' then
      return []
    else
      -- no two entries begin at the same character
      entries source (source.length + 1)
  else
    return []

/-- Reading a name to the end of the text. -/
def name : ByteReader LayerName := do
  let tag ← tag source
  let identifier ← takeWhile source isIdentifierChar
  let entries ← clause source
  if utf8Size source ≤ (← get) then
    return ⟨tag, String.ofList identifier, SortedMap.ofList entries⟩
  else
    throw .trailingText

end ByteReader

/-- Read a layer name by position. The fault tells the position. -/
def parse? (source : String) : Option (Except Fault LayerName) :=
  ((ByteReader.name source.toList).run.run 0).map fun
    | (.ok name, _) => .ok name
    | (.error problem, offset) => .error (.layerName source offset problem)

-- ============================================================ agreement

/-- The position of what is left of a source. -/
def place (source rest : List Char) : Nat :=
  utf8Size source - utf8Size rest

/-- Whether reading by position gives what reading characters does, and
comes to the place of what that leaves. -/
def Agrees {α : Type} (source : List Char) (read : ByteReader α)
    (cs : List Char) : Reading α → Prop
  | .ok (piece, rest) => rest <:+ source
      ∧ read.run.run (place source cs) = some (.ok piece, place source rest)
  | .error stop => stop.rest <:+ source
      ∧ read.run.run (place source cs)
        = some (.error stop.problem, place source stop.rest)

section

variable {α β : Type} {source cs rest : List Char}

/-- A reader that reads nothing stays where it is. -/
theorem agrees_pure (h : cs <:+ source) (piece : α) :
    Agrees source (pure piece) cs (.ok (piece, cs)) :=
  ⟨h, rfl⟩

/-- A problem is reported where the cursor stands. -/
theorem agrees_throw (h : cs <:+ source) (problem : Problem) :
    Agrees (α := α) source (throw problem) cs (.error ⟨problem, cs⟩) :=
  ⟨h, rfl⟩

/-- One reader after another agrees where both do. -/
theorem Agrees.bind {read : ByteReader α} {next : α → ByteReader β}
    {piece : α} {reading : Reading β}
    (hread : Agrees source read cs (.ok (piece, rest)))
    (hnext : Agrees source (next piece) rest reading) :
    Agrees source (read >>= next) cs reading := by
  have hrun : (read >>= next).run.run (place source cs)
      = (next piece).run.run (place source rest) := by
    rw [ExceptT.run_bind, StateT.run_bind, hread.2]
    rfl
  unfold Agrees at hnext ⊢
  rw [hrun]
  exact hnext

/-- After a failure nothing is read. -/
theorem Agrees.bind_error {read : ByteReader α} {next : α → ByteReader β}
    {stop : Stop} (hread : Agrees source read cs (.error stop)) :
    Agrees source (read >>= next) cs (.error stop) := by
  refine ⟨hread.1, ?_⟩
  rw [ExceptT.run_bind, StateT.run_bind, hread.2]
  rfl

theorem place_append (front back : List Char) :
    place (front ++ back) back = utf8Size front := by
  rw [place, Text.utf8Size_append, Nat.add_sub_cancel]

/-- The cursor is at the place of the text that is left. -/
theorem get_agrees (h : cs <:+ source) :
    Agrees source get cs (.ok (place source cs, cs)) :=
  ⟨h, rfl⟩

/-- A slice that is there is handed on. -/
theorem slice_agrees (h : cs <:+ source) (part : List Char) :
    Agrees source (ByteReader.slice (some part)) cs (.ok (part, cs)) :=
  ⟨h, rfl⟩

/-- The slice from the place of a suffix exists, and is that suffix. -/
theorem rest_agrees (h : cs <:+ source) :
    Agrees source (ByteReader.rest source) cs (.ok (cs, cs)) := by
  refine (get_agrees h).bind ?_
  obtain ⟨front, rfl⟩ := h
  rw [place_append, Text.splitBytes?_append]
  exact slice_agrees (List.suffix_append front cs) cs

/-- Moving on by the size of what comes next leads to what comes after. -/
theorem modify_agrees {front : List Char} (h : front ++ rest <:+ source) :
    Agrees source (modify (· + utf8Size front)) (front ++ rest)
      (.ok (⟨⟩, rest)) := by
  obtain ⟨before, rfl⟩ := h
  refine ⟨?_, ?_⟩
  · rw [← List.append_assoc]
    exact List.suffix_append _ rest
  · have hplace : place (before ++ (front ++ rest)) rest
        = place (before ++ (front ++ rest)) (front ++ rest)
          + utf8Size front := by
      rw [place_append, ← List.append_assoc, place_append,
        Text.utf8Size_append]
    rw [hplace]
    rfl

/-- A mark that comes next is eaten. -/
theorem eat_agrees {mark : Char} (h : mark :: cs <:+ source) :
    Agrees source (ByteReader.eat source mark) (mark :: cs)
      (.ok (true, cs)) := by
  have hmove : Agrees source (modify (· + utf8Size [mark])) (mark :: cs)
      (.ok (⟨⟩, cs)) := modify_agrees h
  refine (rest_agrees h).bind ?_
  rw [List.head?_cons, if_pos rfl]
  exact hmove.bind (agrees_pure hmove.1 true)

/-- Another character is left alone. -/
theorem eat_agrees_of_stops {mark : Char} (h : cs <:+ source)
    (hstops : Stops (· == mark) cs) :
    Agrees source (ByteReader.eat source mark) cs (.ok (false, cs)) := by
  refine (rest_agrees h).bind ?_
  have hhead : cs.head? ≠ some mark := by
    intro hhead
    have hmark := hstops mark hhead
    simp at hmark
  rw [if_neg hhead]
  exact agrees_pure h false

/-- A run of characters is taken byte by byte as it is taken character by
character. -/
theorem takeWhile_agrees (h : cs <:+ source) (p : Char → Bool) :
    Agrees source (ByteReader.takeWhile source p) cs
      (.ok (cs.takeWhile p, cs.dropWhile p)) := by
  have hsplit := List.takeWhile_append_dropWhile (p := p) (l := cs)
  have hslice := Text.splitBytes?_append (cs.takeWhile p) (cs.dropWhile p)
  rw [hsplit] at hslice
  have hparts : cs.takeWhile p ++ cs.dropWhile p <:+ source := by
    rw [hsplit]
    exact h
  have hmove := modify_agrees hparts
  rw [hsplit] at hmove
  refine (rest_agrees h).bind (hmove.bind ?_)
  rw [hslice]
  exact slice_agrees hmove.1 _

/-- Blanks are skipped in both ways alike. -/
theorem skipBlanks_agrees (h : cs <:+ source) :
    Agrees source (ByteReader.skipBlanks source) cs
      (.ok (⟨⟩, Text.trimStart cs)) := by
  have hrun := takeWhile_agrees h Text.isBlank
  exact hrun.bind (agrees_pure hrun.1 _)

/-- A mark that is expected and comes is passed over. -/
theorem expect_agrees {mark : Char} (h : mark :: cs <:+ source)
    (problem : Problem) :
    Agrees source (ByteReader.expect source mark problem) (mark :: cs)
      (.ok (⟨⟩, cs)) := by
  have hmark := eat_agrees h
  refine hmark.bind ?_
  rw [if_pos rfl]
  exact agrees_pure hmark.1 _

/-- Where an expected mark does not come, the problem is where something
else stands. -/
theorem expect_agrees_of_stops {mark : Char} (h : cs <:+ source)
    (hstops : Stops (· == mark) cs) (problem : Problem) :
    Agrees source (ByteReader.expect source mark problem) cs
      (.error ⟨problem, cs⟩) := by
  refine (eat_agrees_of_stops h hstops).bind ?_
  rw [if_neg Bool.false_ne_true]
  exact agrees_throw h problem

-- ============================================================== clauses

/-- A text does not go on with a mark it does not start with. -/
theorem stops_of_ne_cons {mark : Char}
    (h : ∀ tail, cs = mark :: tail → False) : Stops (· == mark) cs := by
  cases cs with
  | nil => exact Text.stops_nil _
  | cons c tail =>
      rw [Text.stops_cons, beq_eq_false_iff_ne]
      rintro rfl
      exact h tail rfl

/-- The two readers of a tag agree. -/
theorem tag_agrees (h : cs <:+ source) :
    Agrees source (ByteReader.tag source) cs (readTag cs) := by
  unfold ByteReader.tag readTag
  split
  · next body =>
    have hopen := eat_agrees h
    refine hopen.bind ?_
    rw [if_pos rfl]
    have hletters := takeWhile_agrees hopen.1 isLetter
    refine hletters.bind ?_
    split
    · next after hafter =>
      rw [hafter] at hletters ⊢
      have hclosed := expect_agrees hletters.1 .unclosedTag
      exact hclosed.bind (agrees_pure hclosed.1 _)
    · next hother =>
      exact (expect_agrees_of_stops hletters.1
        (stops_of_ne_cons hother) _).bind_error
  · next hother =>
    refine (eat_agrees_of_stops h (stops_of_ne_cons hother)).bind ?_
    rw [if_neg Bool.false_ne_true]
    exact agrees_pure h _

/-- The two readers of a value agree. -/
theorem value_agrees (h : cs <:+ source) :
    Agrees source (ByteReader.value source) cs (readValue cs) := by
  unfold ByteReader.value readValue
  have hblanks := skipBlanks_agrees h
  refine hblanks.bind ?_
  split
  · next body hbody =>
    rw [hbody] at hblanks ⊢
    have hopen := expect_agrees hblanks.1 .unquotedValue
    have hquoted := takeWhile_agrees hopen.1 (· != '"')
    refine hopen.bind (hquoted.bind ?_)
    split
    · next after hafter =>
      rw [hafter] at hquoted ⊢
      have hclosed := expect_agrees hquoted.1 .unterminatedValue
      have hafter := skipBlanks_agrees hclosed.1
      exact hclosed.bind (hafter.bind (agrees_pure hafter.1 _))
    · next hother =>
      exact (expect_agrees_of_stops hquoted.1
        (stops_of_ne_cons hother) _).bind_error
  · next hother =>
    exact (expect_agrees_of_stops hblanks.1
      (stops_of_ne_cons hother) _).bind_error

/-- The two readers of an entry agree. -/
theorem entry_agrees (h : cs <:+ source) :
    Agrees source (ByteReader.entry source) cs (readEntry cs) := by
  unfold ByteReader.entry readEntry
  have hblanks := skipBlanks_agrees h
  have hkey := takeWhile_agrees hblanks.1 (!endsKey ·)
  refine hblanks.bind (hkey.bind ?_)
  split
  · next hempty =>
    simp only [hempty]
    exact agrees_throw hkey.1 _
  · next hne =>
    simp only
    split
    · next hempty => exact absurd hempty hne
    · next after hafter _ =>
      rw [hafter] at hkey ⊢
      have hequals := expect_agrees hkey.1 .missingEquals
      have hvalue := value_agrees hequals.1
      refine hequals.bind ?_
      cases hread : readValue after with
      | error stop =>
          rw [hread] at hvalue
          exact hvalue.bind_error
      | ok reading =>
          rw [hread] at hvalue
          exact hvalue.bind (agrees_pure hvalue.1 _)
    · next hother =>
      exact (expect_agrees_of_stops hkey.1
        (stops_of_ne_cons hother) _).bind_error

/-- A round for each character that is left, and one more, are enough. -/
theorem entries_agrees (h : cs <:+ source) {rounds : Nat}
    (hrounds : cs.length < rounds) :
    Agrees source (ByteReader.entries source rounds) cs
      (readEntries cs) := by
  induction rounds generalizing cs with
  | zero => exact absurd hrounds (Nat.not_lt_zero _)
  | succ rounds ih =>
      have hfirst := entry_agrees h
      rw [ByteReader.entries, readEntries_eq]
      split
      · next stop hread =>
        rw [hread] at hfirst
        exact hfirst.bind_error
      · next first after hread =>
        rw [hread] at hfirst
        have hclosed := eat_agrees hfirst.1
        refine hfirst.bind (hclosed.bind ?_)
        rw [if_pos rfl]
        exact agrees_pure hclosed.1 _
      · next first after hread =>
        rw [hread] at hfirst
        have hcomma := expect_agrees hfirst.1 .unseparatedEntry
        -- a round less is enough for what is left after the comma
        have hshorter : after.length < cs.length := by
          have := readEntry_length hread
          rw [List.length_cons] at this
          omega
        have hmore := ih hcomma.1 (by omega)
        refine hfirst.bind ((eat_agrees_of_stops hfirst.1
          (Text.stops_cons.2 (by decide))).bind ?_)
        rw [if_neg Bool.false_ne_true]
        refine hcomma.bind ?_
        cases hread : readEntries after with
        | error stop =>
            rw [hread] at hmore
            exact hmore.bind_error
        | ok reading =>
            rw [hread] at hmore
            exact hmore.bind (agrees_pure hmore.1 _)
      · next first after hbracket hcomma hread =>
        rw [hread] at hfirst
        refine hfirst.bind ((eat_agrees_of_stops hfirst.1
          (stops_of_ne_cons hbracket)).bind ?_)
        rw [if_neg Bool.false_ne_true]
        exact (expect_agrees_of_stops hfirst.1
          (stops_of_ne_cons hcomma) _).bind_error

/-- The two readers of a clause agree: entry by entry, the cursor is where
the text that is left begins. -/
theorem clause_agrees (h : cs <:+ source) :
    Agrees source (ByteReader.clause source) cs (readClause cs) := by
  unfold ByteReader.clause readClause
  split
  · next body =>
    have hopen := eat_agrees h
    have hblanks := skipBlanks_agrees hopen.1
    refine hopen.bind ?_
    rw [if_pos rfl]
    refine hblanks.bind ?_
    split
    · next after hafter =>
      rw [hafter] at hblanks ⊢
      have hclosed := eat_agrees hblanks.1
      refine hclosed.bind ?_
      rw [if_pos rfl]
      exact agrees_pure hclosed.1 _
    · next hother =>
      refine (eat_agrees_of_stops hblanks.1
        (stops_of_ne_cons hother)).bind ?_
      rw [if_neg Bool.false_ne_true]
      exact entries_agrees hblanks.1
        (Nat.lt_succ_of_le hblanks.1.length_le)
  · next hother =>
    refine (eat_agrees_of_stops h (stops_of_ne_cons hother)).bind ?_
    rw [if_neg Bool.false_ne_true]
    exact agrees_pure h _

-- ================================================================ names

/-- Only at the end of a source nothing is left. -/
theorem size_le_place_iff (h : cs <:+ source) :
    utf8Size source ≤ place source cs ↔ cs = [] := by
  obtain ⟨front, rfl⟩ := h
  rw [place_append, Text.utf8Size_append]
  cases cs with
  | nil => simp [utf8Size]
  | cons c cs =>
      have := c.utf8Size_pos
      simp only [utf8Size, reduceCtorEq, iff_false]
      omega

/-- Names are read to the end of the source. -/
theorem name_agrees (h : cs <:+ source) :
    Agrees source (ByteReader.name source) cs
      ((readName cs).map fun name => (name, [])) := by
  unfold ByteReader.name readName
  have htag := tag_agrees h
  cases hreadTag : readTag cs with
  | error stop =>
      rw [hreadTag] at htag
      exact htag.bind_error
  | ok reading =>
      obtain ⟨tag, body⟩ := reading
      rw [hreadTag] at htag
      have hidentifier := takeWhile_agrees htag.1 isIdentifierChar
      refine htag.bind (hidentifier.bind ?_)
      have hclause := clause_agrees hidentifier.1
      cases hread : readClause (body.dropWhile isIdentifierChar) with
      | error stop =>
          rw [hread] at hclause
          simp only [bind, Except.bind, hread]
          exact hclause.bind_error
      | ok reading =>
          obtain ⟨entries, after⟩ := reading
          rw [hread] at hclause
          simp only [bind, Except.bind, hread]
          refine hclause.bind ((get_agrees hclause.1).bind ?_)
          cases after with
          | nil =>
              rw [if_pos ((size_le_place_iff hclause.1).2 rfl)]
              exact agrees_pure hclause.1 _
          | cons c after =>
              have hleft : ¬ utf8Size source ≤ place source (c :: after) := by
                rw [size_le_place_iff hclause.1]
                exact List.cons_ne_nil c after
              rw [if_neg hleft]
              exact agrees_throw hclause.1 _

end

/-- Reading by position always has an outcome: no slice is taken from or to
the inside of a character. And it is that of reading characters. -/
theorem parse?_eq (source : String) : parse? source = some (parse source) := by
  have hname := name_agrees (List.suffix_refl source.toList)
  have hstart : place source.toList source.toList = 0 := Nat.sub_self _
  unfold parse? parse
  cases hread : readName source.toList with
  | error stop =>
      rw [hread] at hname
      rw [← hstart, hname.2]
      rfl
  | ok name =>
      rw [hread] at hname
      rw [← hstart, hname.2]
      rfl

end LayerName

end LayerPage
