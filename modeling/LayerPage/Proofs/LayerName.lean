/-
The grammar of layer names, and that the parser reads exactly it. A
spelling is the data of one way to write a name, blanks included;
`Spelling.text` writes it, and `Spelling.Spells` says which name it is.

# Both directions, reader by reader

Every reader comes with two lemmas. One says that what it has read was
spelt in the text before it, and the other that it reads what is spelt,
if the text goes on in a way that cannot be taken for more of the same.
What may follow is decided by one character: a tag clause that is absent
must not be followed by `<`, an identifier ends before anything but
letters, `-` and `_`, and an entry ends before anything but a blank.

# Blanks in keys

The parser takes all up to `=` for the key and trims it afterwards, so
blanks after a key are read as part of it, and blanks inside it are kept.
In the grammar the key is what is left: a text without blanks at its ends.
-/
import LayerPage.LayerName.Parser
import LayerPage.Proofs.Blank
import LayerPage.Proofs.SortedMap

namespace LayerPage.LayerName

open Text (isBlank Stops IsTrimmed stops_cons stops_nil)

-- ============================================================== grammar

/-- An entry as it is written: a key and a quoted value, with blanks around
each of them. -/
structure WrittenEntry where
  blanksBefore : List Char
  key : List Char
  blanksAfterKey : List Char
  blanksBeforeValue : List Char
  value : List Char
  blanksAfter : List Char
  blanks : ∀ c ∈ blanksBefore ++ blanksAfterKey ++ blanksBeforeValue
    ++ blanksAfter, isBlank c = true
  key_nonempty : key ≠ []
  key_trimmed : IsTrimmed key
  key_chars : ∀ c ∈ key, c ∉ ['=', ',', ']', '"']
  value_chars : '"' ∉ value

/-- The text of an entry. -/
def WrittenEntry.text (e : WrittenEntry) : List Char :=
  e.blanksBefore ++ (e.key ++ (e.blanksAfterKey ++ '=' ::
    (e.blanksBeforeValue ++ '"' :: (e.value ++ '"' :: e.blanksAfter))))

/-- The key and the value of an entry. -/
def WrittenEntry.pair (e : WrittenEntry) : String × String :=
  (String.ofList e.key, String.ofList e.value)

/-- Entries with commas between them. -/
def joined (first : WrittenEntry) (more : List WrittenEntry) : List Char :=
  first.text ++ more.flatMap fun e => ',' :: e.text

/-- The entry clause of a name: absent, empty, or with one entry at least. -/
inductive Clause
  | absent
  | empty (blanks : List Char) (are_blank : ∀ c ∈ blanks, isBlank c = true)
  | filled (first : WrittenEntry) (more : List WrittenEntry)

/-- The text of an entry clause. -/
def Clause.text : Clause → List Char
  | absent => []
  | empty blanks _ => '[' :: (blanks ++ [']'])
  | filled first more => '[' :: (joined first more ++ [']'])

/-- The entries of an entry clause in the order in which they are written. -/
def Clause.entries : Clause → List WrittenEntry
  | absent => []
  | empty _ _ => []
  | filled first more => first :: more

/-- The text of a tag clause, which may be absent. -/
def tagText : Option (List Char) → List Char
  | none => []
  | some letters => '<' :: (letters ++ ['>'])

/-- A layer name as it is written. -/
structure Spelling where
  /-- The letters in angle brackets, if there is a tag clause. -/
  letters? : Option (List Char)
  identifier : List Char
  clause : Clause
  tag_chars : ∀ letters ∈ letters?, ∀ c ∈ letters, c.isAlpha = true
  identifier_chars : ∀ c ∈ identifier, c.isAlpha = true ∨ c = '-' ∨ c = '_'

/-- The text of a layer name: its three clauses, one after another. -/
def Spelling.text (s : Spelling) : List Char :=
  tagText s.letters? ++ (s.identifier ++ s.clause.text)

/-- Whether a list of entries has a value for a key, where the last entry
with the key counts. -/
def LastValue (entries : List WrittenEntry) (key value : String) : Prop :=
  ∃ before e after, entries = before ++ e :: after
    ∧ String.ofList e.key = key ∧ String.ofList e.value = value
    ∧ ∀ later ∈ after, String.ofList later.key ≠ key

/-- Whether a spelling is that of a name. -/
structure Spelling.Spells (s : Spelling) (name : LayerName) : Prop where
  tag : name.tag = match s.letters? with
    | none => "div"
    | some letters => String.ofList letters
  identifier : name.identifier = String.ofList s.identifier
  entries : ∀ key value, name.entries.get? key = some value
    ↔ LastValue s.clause.entries key value

-- =========================================================== characters

/-- The letters of a tag are those of ASCII. -/
theorem isLetter_eq_isAlpha (c : Char) : isLetter c = c.isAlpha := by
  have hlower : (('a' ≤ c && c ≤ 'z') : Bool) = c.isLower := rfl
  have hupper : (('A' ≤ c && c ≤ 'Z') : Bool) = c.isUpper :=
    (Bool.decide_and ..).symm
  show _ = (c.isUpper || c.isLower)
  rw [isLetter, hlower, hupper, Bool.or_comm]

/-- The characters of an identifier are letters, dashes and underscores. -/
theorem isIdentifierChar_iff {c : Char} :
    isIdentifierChar c = true ↔ c.isAlpha = true ∨ c = '-' ∨ c = '_' := by
  rw [isIdentifierChar, isLetter_eq_isAlpha, Bool.or_assoc, Bool.or_eq_true,
    Bool.or_eq_true, beq_iff_eq, beq_iff_eq]

/-- The characters that can stand in a key are all but four. -/
theorem endsKey_eq_false_iff {c : Char} :
    endsKey c = false ↔ c ∉ ['=', ',', ']', '"'] := by
  simp [endsKey, and_assoc]

/-- No blank ends a key. -/
theorem endsKey_of_isBlank {c : Char} (h : isBlank c = true) :
    endsKey c = false := by
  rw [endsKey_eq_false_iff]
  intro hmem
  simp only [List.mem_cons, List.not_mem_nil, or_false] at hmem
  rcases hmem with rfl | rfl | rfl | rfl
  · exact absurd h (by decide)
  · exact absurd h (by decide)
  · exact absurd h (by decide)
  · exact absurd h (by decide)

-- ================================================================== tag

/-- A tag that is written is read, and so is one that is left out, if no
bracket follows. -/
theorem readTag_tagText {letters? : Option (List Char)} {rest : List Char}
    (hletters : ∀ letters ∈ letters?, ∀ c ∈ letters, c.isAlpha = true)
    (hrest : letters? = none → Stops (· == '<') rest) :
    readTag (tagText letters? ++ rest)
      = .ok ((letters?.map String.ofList).getD defaultTag, rest) := by
  cases letters? with
  | none =>
      have hstops := hrest rfl
      show readTag rest = _
      unfold readTag
      split
      · rw [stops_cons] at hstops
        cases hstops
      · rfl
  | some letters =>
      have hrun : ∀ c ∈ letters, isLetter c = true := by
        intro c hc
        rw [isLetter_eq_isAlpha]
        exact hletters letters rfl c hc
      have hstops : Stops isLetter ('>' :: rest) :=
        stops_cons.2 (by decide)
      have htext : tagText (some letters) ++ rest
          = '<' :: (letters ++ '>' :: rest) := by
        rw [tagText, List.cons_append, List.append_assoc]
        rfl
      rw [htext, readTag, Text.takeWhile_run hrun hstops,
        Text.dropWhile_run hrun hstops]
      rfl

/-- What is read as a tag is written as one. -/
theorem readTag_eq_ok {cs rest : List Char} {tag : String}
    (h : readTag cs = .ok (tag, rest)) :
    ∃ letters? : Option (List Char),
      (∀ letters ∈ letters?, ∀ c ∈ letters, c.isAlpha = true)
        ∧ cs = tagText letters? ++ rest
        ∧ tag = (letters?.map String.ofList).getD defaultTag := by
  unfold readTag at h
  split at h
  · next body =>
    split at h
    · next after hafter =>
      cases h
      refine ⟨some (body.takeWhile isLetter), ?_, ?_, rfl⟩
      · intro letters hletters c hc
        cases hletters
        rw [← isLetter_eq_isAlpha]
        exact Text.mem_takeWhile hc
      · rw [tagText, List.cons_append, List.append_assoc,
          List.singleton_append, ← hafter, List.takeWhile_append_dropWhile]
    · cases h
  · cases h
    refine ⟨none, ?_, rfl, rfl⟩
    intro letters hletters
    cases hletters

-- ============================================================== entries

/-- A quoted value is read with the blanks around it. -/
theorem readValue_text {before value after rest : List Char}
    (hbefore : ∀ c ∈ before, isBlank c = true) (hvalue : '"' ∉ value)
    (hafter : ∀ c ∈ after, isBlank c = true) (hrest : Stops isBlank rest) :
    readValue (before ++ '"' :: (value ++ '"' :: (after ++ rest)))
      = .ok (String.ofList value, rest) := by
  have hrun : ∀ c ∈ value, (c != '"') = true := by
    intro c hc
    rw [bne_iff_ne]
    rintro rfl
    exact hvalue hc
  have hquote : Stops (· != '"') ('"' :: (after ++ rest)) :=
    stops_cons.2 (by decide)
  rw [readValue, Text.trimStart_blanks hbefore (stops_cons.2 (by decide))]
  simp only
  rw [Text.takeWhile_run hrun hquote, Text.dropWhile_run hrun hquote]
  simp only
  rw [Text.trimStart_blanks hafter hrest]

/-- What is read as a value is a text in quotes without a quote in it. -/
theorem readValue_eq_ok {cs rest : List Char} {value : String}
    (h : readValue cs = .ok (value, rest)) :
    ∃ before quoted after, cs
        = before ++ '"' :: (quoted ++ '"' :: (after ++ rest))
      ∧ value = String.ofList quoted ∧ '"' ∉ quoted
      ∧ (∀ c ∈ before, isBlank c = true)
      ∧ ∀ c ∈ after, isBlank c = true := by
  obtain ⟨before, hbefore, hcs⟩ := Text.exists_blanks_trimStart cs
  unfold readValue at h
  split at h
  · next body hbody =>
    split at h
    · next tail htail =>
      cases h
      obtain ⟨after, hafter, htrimmed⟩ := Text.exists_blanks_trimStart tail
      refine ⟨before, body.takeWhile (· != '"'), after, ?_, rfl, ?_,
        hbefore, hafter⟩
      · rw [← htrimmed, ← htail, List.takeWhile_append_dropWhile, ← hbody]
        exact hcs
      · intro hquote
        exact absurd (Text.mem_takeWhile hquote) (by decide)
    · cases h
  · cases h

/-- Entries start where their keys do. -/
theorem readEntry_trimStart (cs : List Char) :
    readEntry (Text.trimStart cs) = readEntry cs := by
  unfold readEntry
  rw [Text.trimStart_of_stops (Text.stops_trimStart cs)]

namespace WrittenEntry

variable (e : WrittenEntry)

/-- Each of the four runs of blanks is one. -/
theorem blank_parts :
    (((∀ c ∈ e.blanksBefore, isBlank c = true)
      ∧ ∀ c ∈ e.blanksAfterKey, isBlank c = true)
      ∧ ∀ c ∈ e.blanksBeforeValue, isBlank c = true)
      ∧ ∀ c ∈ e.blanksAfter, isBlank c = true := by
  simpa only [List.forall_mem_append] using e.blanks

/-- The text of an entry without the blanks before it. -/
def fromKey : List Char :=
  e.key ++ (e.blanksAfterKey ++ '=' :: (e.blanksBeforeValue ++ '"' ::
    (e.value ++ '"' :: e.blanksAfter)))

theorem stops_fromKey_append {p : Char → Bool} (hp : Stops p e.key)
    (rest : List Char) : Stops p (e.fromKey ++ rest) := by
  rw [fromKey, List.append_assoc, Text.stops_append e.key_nonempty]
  exact hp

theorem trimStart_text_append (rest : List Char) :
    Text.trimStart (e.text ++ rest) = e.fromKey ++ rest := by
  obtain ⟨⟨⟨hbefore, -⟩, -⟩, -⟩ := e.blank_parts
  rw [text, List.append_assoc]
  exact Text.trimStart_blanks hbefore
    (e.stops_fromKey_append e.key_trimmed.1 rest)

end WrittenEntry

/-- An entry that is written is read, whatever follows its last blank. -/
theorem readEntry_text (e : WrittenEntry) {rest : List Char}
    (hrest : Stops isBlank rest) :
    readEntry (e.text ++ rest) = .ok (e.pair, rest) := by
  obtain ⟨⟨⟨-, hafterKey⟩, hbeforeValue⟩, hafter⟩ := e.blank_parts
  have htext : e.fromKey ++ rest = (e.key ++ e.blanksAfterKey)
      ++ '=' :: (e.blanksBeforeValue ++ '"' :: (e.value ++ '"' ::
        (e.blanksAfter ++ rest))) := by
    simp [WrittenEntry.fromKey]
  have hrun : ∀ c ∈ e.key ++ e.blanksAfterKey, (!endsKey c) = true := by
    intro c hc
    rw [Bool.not_eq_true']
    rcases List.mem_append.1 hc with hc | hc
    · exact endsKey_eq_false_iff.2 (e.key_chars c hc)
    · exact endsKey_of_isBlank (hafterKey c hc)
  have hequals : ∀ cs, Stops (!endsKey ·) ('=' :: cs) :=
    fun cs => stops_cons.2 (by decide)
  have hvalue := readValue_text hbeforeValue e.value_chars hafter hrest
  unfold readEntry
  simp only
  rw [e.trimStart_text_append, htext, Text.takeWhile_run hrun (hequals _),
    Text.dropWhile_run hrun (hequals _),
    Text.trim_blanks e.key_nonempty e.key_trimmed hafterKey]
  split
  · next hkey => exact absurd hkey e.key_nonempty
  · next hsame _ =>
    cases hsame
    rw [hvalue]
    rfl
  · next hother => exact absurd rfl (hother _)

/-- What is read as an entry is written as one. -/
theorem readEntry_eq_ok {cs rest : List Char} {pair : String × String}
    (h : readEntry cs = .ok (pair, rest)) :
    ∃ e : WrittenEntry, cs = e.text ++ rest ∧ pair = e.pair := by
  obtain ⟨before, hbefore, hcs⟩ := Text.exists_blanks_trimStart cs
  have hstops := Text.stops_trimStart cs
  unfold readEntry at h
  simp only at h
  generalize Text.trimStart cs = body at hcs hstops h
  obtain ⟨afterKey, hafterKey, hkey, htrimmed⟩ :=
    Text.exists_trim_blanks (hstops.takeWhile (!endsKey ·))
  generalize Text.trim (body.takeWhile (!endsKey ·)) = key
    at hkey htrimmed h
  split at h
  · cases h
  · next key _ _ tail hne htail =>
    cases hread : readValue tail with
    | error stop => rw [hread] at h; cases h
    | ok reading =>
        obtain ⟨value, after⟩ := reading
        rw [hread] at h
        cases h
        obtain ⟨beforeValue, quoted, afterValue, htext, hvalue, hquoted,
          hbeforeValue, hafterValue⟩ := readValue_eq_ok hread
        have hblanks : ∀ c ∈ before ++ afterKey ++ beforeValue
            ++ afterValue, isBlank c = true := by
          simp only [List.forall_mem_append]
          exact ⟨⟨⟨hbefore, hafterKey⟩, hbeforeValue⟩, hafterValue⟩
        have hchars : ∀ c ∈ key, c ∉ ['=', ',', ']', '"'] := by
          intro c hc
          rw [← endsKey_eq_false_iff, ← Bool.not_eq_true']
          apply Text.mem_takeWhile (p := (!endsKey ·))
          rw [hkey]
          exact List.mem_append_left _ hc
        -- all that was passed over is kept, so that the text can be put
        -- together again
        refine ⟨
          { blanksBefore := before
            key
            blanksAfterKey := afterKey
            blanksBeforeValue := beforeValue
            value := quoted
            blanksAfter := afterValue
            blanks := hblanks
            key_nonempty := hne
            key_trimmed := htrimmed
            key_chars := hchars
            value_chars := hquoted }, ?_, ?_⟩
        · rw [hcs, ← List.takeWhile_append_dropWhile (p := (!endsKey ·))
            (l := body), hkey, htail, htext]
          simp [WrittenEntry.text]
        · rw [hvalue]
          rfl
  · cases h

/-- What is read after an entry, without the proof that reading ends. -/
theorem readEntries_eq (cs : List Char) :
    readEntries cs = match readEntry cs with
      | .error stop => .error stop
      | .ok (entry, ']' :: rest) => .ok ([entry], rest)
      | .ok (entry, ',' :: rest) =>
        (readEntries rest).map fun (entries, rest) => (entry :: entries, rest)
      | .ok (_, rest) => .error ⟨.unseparatedEntry, rest⟩ := by
  rw [readEntries]
  split
  · next h => simp only [h]
  · next h => simp only [h]
  · next h => simp only [h]
  · next h => simp only [h]

/-- Blanks before the first key make no difference. -/
theorem readEntries_trimStart (cs : List Char) :
    readEntries (Text.trimStart cs) = readEntries cs := by
  rw [readEntries_eq, readEntry_trimStart, ← readEntries_eq]

/-- Entries with commas between them are read in their order. The induction
is on those after the first one. -/
theorem readEntries_joined (first : WrittenEntry) (more : List WrittenEntry)
    (rest : List Char) :
    readEntries (joined first more ++ ']' :: rest)
      = .ok ((first :: more).map WrittenEntry.pair, rest) := by
  induction more generalizing first with
  | nil =>
      have hstops : Stops isBlank (']' :: rest) := stops_cons.2 (by decide)
      rw [joined, List.flatMap_nil, List.append_nil, readEntries_eq,
        readEntry_text first hstops]
      rfl
  | cons second more ih =>
      have htext : joined first (second :: more) ++ ']' :: rest
          = first.text ++ ',' :: (joined second more ++ ']' :: rest) := by
        simp [joined]
      have hstops : Stops isBlank
          (',' :: (joined second more ++ ']' :: rest)) :=
        stops_cons.2 (by decide)
      rw [htext, readEntries_eq, readEntry_text first hstops]
      simp only
      rw [ih]
      rfl

/-- What is read as entries is written so, with commas between them. The
induction follows the reader. -/
theorem readEntries_eq_ok {cs rest : List Char}
    {pairs : List (String × String)} (h : readEntries cs = .ok (pairs, rest)) :
    ∃ first more, cs = joined first more ++ ']' :: rest
      ∧ pairs = (first :: more).map WrittenEntry.pair := by
  induction hlength : cs.length using Nat.strongRecOn generalizing cs pairs with
  | _ length ih =>
      subst hlength
      rw [readEntries_eq] at h
      split at h
      · cases h
      · next hentry =>
        cases h
        obtain ⟨e, hcs, hpair⟩ := readEntry_eq_ok hentry
        refine ⟨e, [], ?_, ?_⟩
        · rw [joined, List.flatMap_nil, List.append_nil]
          exact hcs
        · rw [hpair]
          rfl
      · next pair after hentry =>
        obtain ⟨e, hcs, hpair⟩ := readEntry_eq_ok hentry
        cases hread : readEntries after with
        | error stop => rw [hread] at h; cases h
        | ok reading =>
            obtain ⟨others, last⟩ := reading
            rw [hread] at h
            cases h
            -- the reader goes on after the comma
            have hshorter : after.length < cs.length := by
              have := readEntry_length hentry
              rw [List.length_cons] at this
              omega
            obtain ⟨second, more, hafter, hothers⟩ :=
              ih after.length hshorter hread rfl
            refine ⟨e, second :: more, ?_, ?_⟩
            · rw [hcs, hafter]
              simp [joined]
            · rw [hpair, hothers]
              rfl
      · cases h

/-- An entry clause is read up to what comes after it. Only one that is
absent could be taken for the start of another. -/
theorem readClause_text (clause : Clause) {rest : List Char}
    (hrest : clause = .absent → Stops (· == '[') rest) :
    readClause (clause.text ++ rest)
      = .ok (clause.entries.map WrittenEntry.pair, rest) := by
  cases clause with
  | absent =>
      have hstops := hrest rfl
      show readClause rest = _
      unfold readClause
      split
      · rw [stops_cons] at hstops
        cases hstops
      · rfl
  | empty blanks hblanks =>
      rw [Clause.text, List.cons_append, List.append_assoc,
        List.singleton_append, readClause,
        Text.trimStart_blanks hblanks (stops_cons.2 (by decide))]
      rfl
  | filled first more =>
      -- the bracket is not closed at once, since a key comes first
      have hread := readEntries_joined first more rest
      have hfirst : Text.trimStart (joined first more ++ ']' :: rest)
          = first.fromKey
            ++ (more.flatMap (fun e => ',' :: e.text) ++ ']' :: rest) := by
        rw [joined, List.append_assoc, first.trimStart_text_append]
      have hbracket : Stops (· == ']')
          (Text.trimStart (joined first more ++ ']' :: rest)) := by
        rw [hfirst]
        apply first.stops_fromKey_append
        intro c hc
        have hchar := first.key_chars c (List.mem_of_mem_head? hc)
        rw [beq_eq_false_iff_ne]
        rintro rfl
        exact hchar (by decide)
      rw [Clause.text, List.cons_append, List.append_assoc,
        List.singleton_append, readClause]
      split
      · next hclosed =>
        rw [hclosed, stops_cons] at hbracket
        cases hbracket
      · rw [readEntries_trimStart, hread]
        rfl

/-- What is read as a clause is none, or entries in brackets. -/
theorem readClause_eq_ok {cs : List Char} {pairs : List (String × String)}
    {rest : List Char} (h : readClause cs = .ok (pairs, rest)) :
    ∃ clause : Clause, cs = clause.text ++ rest
      ∧ pairs = clause.entries.map WrittenEntry.pair := by
  unfold readClause at h
  split at h
  · next body =>
    split at h
    · next after hclosed =>
      cases h
      obtain ⟨blanks, hblanks, hbody⟩ := Text.exists_blanks_trimStart body
      refine ⟨.empty blanks hblanks, ?_, rfl⟩
      rw [hbody, hclosed]
      simp [Clause.text]
    · rw [readEntries_trimStart] at h
      obtain ⟨first, more, hbody, hpairs⟩ := readEntries_eq_ok h
      refine ⟨.filled first more, ?_, hpairs⟩
      rw [hbody]
      simp [Clause.text]
  · cases h
    exact ⟨.absent, rfl, rfl⟩

-- ================================================================ names

/-- The text of an entry clause starts with a bracket, if there is any. -/
theorem Clause.stops_text (clause : Clause) {p : Char → Bool}
    (hp : p '[' = false) : Stops p clause.text := by
  cases clause with
  | absent => exact stops_nil p
  | empty blanks hblanks => exact stops_cons.2 hp
  | filled first more => exact stops_cons.2 hp

/-- The name that a spelling is that of. -/
def Spelling.name (s : Spelling) : LayerName :=
  { tag := (s.letters?.map String.ofList).getD defaultTag
    identifier := String.ofList s.identifier
    entries := SortedMap.ofList (s.clause.entries.map WrittenEntry.pair) }

/-- Of two entries with one key the later one counts. -/
theorem get?_ofList_pairs {entries : List WrittenEntry} {key value : String} :
    (SortedMap.ofList (entries.map WrittenEntry.pair)).get? key = some value
      ↔ LastValue entries key value := by
  have hempty : (SortedMap.empty : SortedMap String).get? key = none := rfl
  rw [SortedMap.ofList, SortedMap.get?_insertAll, hempty, Option.or_none,
    List.lookup_eq_some_iff]
  constructor
  · rintro ⟨later, earlier, hsplit, hlater⟩
    have hpairs := congrArg List.reverse hsplit
    rw [List.reverse_reverse, List.reverse_append, List.reverse_cons,
      List.append_assoc, List.singleton_append] at hpairs
    obtain ⟨before, tail, hentries, -, htail⟩ := List.map_eq_append_iff.1 hpairs
    obtain ⟨e, after, rfl, hpair, hafter⟩ := List.map_eq_cons_iff.1 htail
    refine ⟨before, e, after, hentries, congrArg Prod.fst hpair,
      congrArg Prod.snd hpair, ?_⟩
    intro other hother hkey
    have hmem : other.pair ∈ later := by
      rw [← List.mem_reverse, ← hafter]
      exact List.mem_map_of_mem hother
    have hne := hlater other.pair hmem
    rw [bne_iff_ne] at hne
    exact hne hkey.symm
  · rintro ⟨before, e, after, rfl, rfl, rfl, hafter⟩
    refine ⟨(after.map WrittenEntry.pair).reverse,
      (before.map WrittenEntry.pair).reverse, ?_, ?_⟩
    · rw [List.map_append, List.map_cons, List.reverse_append,
        List.reverse_cons, List.append_assoc, List.singleton_append]
      rfl
    · intro pair hpair
      rw [List.mem_reverse] at hpair
      obtain ⟨other, hother, rfl⟩ := List.mem_map.1 hpair
      rw [bne_iff_ne]
      exact Ne.symm (hafter other hother)

/-- A spelling is that of one name. -/
theorem Spelling.spells_iff {s : Spelling} {name : LayerName} :
    s.Spells name ↔ name = s.name := by
  constructor
  · intro h
    have htag : name.tag = s.name.tag := by
      rw [h.tag, Spelling.name]
      cases s.letters? with
      | none => rfl
      | some letters => rfl
    have hentries : name.entries = s.name.entries := by
      apply SortedMap.ext_get?
      intro key
      apply Option.ext
      intro value
      rw [h.entries, Spelling.name, get?_ofList_pairs]
    cases name
    cases htag
    cases hentries
    cases h.identifier
    rfl
  · rintro rfl
    refine ⟨?_, rfl, fun _ _ => get?_ofList_pairs⟩
    rw [Spelling.name]
    cases s.letters? with
    | none => rfl
    | some letters => rfl

/-- Whether a tag clause and an identifier end where another text starts:
that text does not go on with them. -/
structure IsOpening (letters? : Option (List Char))
    (identifier cs : List Char) : Prop where
  letters : ∀ letters ∈ letters?, ∀ c ∈ letters, c.isAlpha = true
  chars : ∀ c ∈ identifier, isIdentifierChar c = true
  ends : Stops isIdentifierChar cs
  starts : letters? = none → Stops (· == '<') (identifier ++ cs)

/-- Names are read clause by clause. -/
theorem readName_opening {letters? : Option (List Char)}
    {identifier cs : List Char} (h : IsOpening letters? identifier cs) :
    readName (tagText letters? ++ (identifier ++ cs))
      = match readClause cs with
        | .error stop => .error stop
        | .ok (entries, []) =>
          .ok ⟨(letters?.map String.ofList).getD defaultTag,
            String.ofList identifier, SortedMap.ofList entries⟩
        | .ok (_, rest) => .error ⟨.trailingText, rest⟩ := by
  unfold readName
  rw [readTag_tagText h.letters h.starts]
  simp only [bind, Except.bind]
  rw [Text.takeWhile_run h.chars h.ends, Text.dropWhile_run h.chars h.ends]
  cases readClause cs with
  | error stop => rfl
  | ok reading =>
      obtain ⟨entries, rest⟩ := reading
      cases rest with
      | nil => rfl
      | cons c rest => rfl

/-- Each spelling begins as a name does. -/
theorem Spelling.isOpening (s : Spelling) :
    IsOpening s.letters? s.identifier s.clause.text := by
  have hrun : ∀ c ∈ s.identifier, isIdentifierChar c = true :=
    fun c hc => isIdentifierChar_iff.2 (s.identifier_chars c hc)
  refine ⟨s.tag_chars, hrun, s.clause.stops_text (by decide), fun _ => ?_⟩
  cases hidentifier : s.identifier with
  | nil => exact s.clause.stops_text (by decide)
  | cons c cs =>
      have hchar := hrun c (hidentifier ▸ List.mem_cons_self)
      rw [List.cons_append, stops_cons, beq_eq_false_iff_ne]
      rintro rfl
      exact absurd hchar (by decide)

/-- Each spelling is read as the name that it spells. -/
theorem readName_text (s : Spelling) : readName s.text = .ok s.name := by
  have hread := readClause_text s.clause fun _ => stops_nil (· == '[')
  rw [List.append_nil] at hread
  rw [Spelling.text, readName_opening s.isOpening, hread]
  rfl

/-- Each name that is read has a spelling. -/
theorem readName_eq_ok {cs : List Char} {name : LayerName}
    (h : readName cs = .ok name) :
    ∃ s : Spelling, cs = s.text ∧ name = s.name := by
  unfold readName at h
  cases htag : readTag cs with
  | error stop => rw [htag] at h; cases h
  | ok reading =>
      obtain ⟨tag, body⟩ := reading
      obtain ⟨letters?, hletters, hcs, rfl⟩ := readTag_eq_ok htag
      cases hclause : readClause (body.dropWhile isIdentifierChar) with
      | error stop => simp [htag, hclause, bind, Except.bind] at h
      | ok reading =>
          obtain ⟨pairs, rest⟩ := reading
          obtain ⟨clause, hrest, rfl⟩ := readClause_eq_ok hclause
          simp only [htag, hclause, bind, Except.bind] at h
          cases rest with
          | cons c rest => cases h
          | nil =>
              cases h
              refine ⟨
                { letters?
                  identifier := body.takeWhile isIdentifierChar
                  clause
                  tag_chars := hletters
                  identifier_chars := ?_ }, ?_, rfl⟩
              · intro c hc
                exact isIdentifierChar_iff.1 (Text.mem_takeWhile hc)
              · rw [List.append_nil] at hrest
                rw [Spelling.text, ← hrest,
                  List.takeWhile_append_dropWhile]
                exact hcs

/-- Only readable texts have names. -/
theorem parse_eq_ok_iff {source : String} {name : LayerName} :
    parse source = .ok name ↔ readName source.toList = .ok name := by
  unfold parse
  cases readName source.toList with
  | error stop => simp
  | ok read => simp

/-- The parser accepts the texts of spellings and nothing else, and gives
the name that is spelt; whatever is spelt can be read back. -/
theorem parse_iff_spelling :
    (∀ source name, parse source = .ok name
      ↔ ∃ s : Spelling, source = String.ofList s.text ∧ s.Spells name)
    ∧ ∀ s : Spelling, ∃ name, parse (String.ofList s.text) = .ok name
        ∧ s.Spells name := by
  have hwritten : ∀ s : Spelling,
      parse (String.ofList s.text) = .ok s.name := by
    intro s
    rw [parse_eq_ok_iff, String.toList_ofList]
    exact readName_text s
  constructor
  · intro source name
    constructor
    · intro h
      obtain ⟨s, htext, hname⟩ := readName_eq_ok (parse_eq_ok_iff.1 h)
      refine ⟨s, ?_, Spelling.spells_iff.2 hname⟩
      rw [← htext, String.ofList_toList]
    · rintro ⟨s, rfl, hspells⟩
      rw [Spelling.spells_iff.1 hspells]
      exact hwritten s
  · intro s
    exact ⟨s.name, hwritten s, Spelling.spells_iff.2 rfl⟩

/-- What the characters of every name are like, as far as the page depends
on it: a tag is made of letters, an identifier of letters and two marks,
and no key has a delimiter in it. -/
structure IsPlain (name : LayerName) : Prop where
  tag : ∀ c ∈ name.tag.toList, c.isAlpha = true
  identifier : ∀ c ∈ name.identifier.toList,
    c.isAlpha = true ∨ c = '-' ∨ c = '_'
  keys : ∀ entry ∈ name.entries.toList,
    ∀ c ∈ entry.1.toList, c ∉ ['=', ',', ']', '"']

/-- The blank name can be written in markup. -/
theorem isPlain_blank : blank.IsPlain := by
  constructor
  · intro c hc
    cases hc
  · intro c hc
    cases hc
  · intro entry hentry
    cases hentry

/-- Each name that was read can be written in markup. -/
theorem isPlain_of_parse {source : String} {name : LayerName}
    (h : parse source = .ok name) : name.IsPlain := by
  obtain ⟨s, -, rfl⟩ := readName_eq_ok (parse_eq_ok_iff.1 h)
  constructor
  · intro c hc
    unfold Spelling.name at hc
    cases hletters : s.letters? with
    | none =>
        rw [hletters] at hc
        have hdefault : defaultTag.toList.all Char.isAlpha = true := by decide
        exact List.all_eq_true.1 hdefault c hc
    | some letters =>
        rw [hletters] at hc
        refine s.tag_chars letters hletters c ?_
        rw [← String.toList_ofList (l := letters)]
        exact hc
  · intro c hc
    rw [Spelling.name, String.toList_ofList] at hc
    exact s.identifier_chars c hc
  · rintro ⟨key, value⟩ hentry c hc
    rw [SortedMap.mem_toList_iff, Spelling.name, get?_ofList_pairs] at hentry
    obtain ⟨-, e, -, -, rfl, -⟩ := hentry
    rw [String.toList_ofList] at hc
    exact e.key_chars c hc

end LayerPage.LayerName
