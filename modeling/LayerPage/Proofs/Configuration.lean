/-
The settings of a conversion, as they are written. An entry is a key and
a quoted value with an equals sign between them and blanks around both;
`WrittenEntry` is the data of one way to write it. The value is all
between its first and its last quote, so that there may be quotes in it,
and equals signs; the key is what comes before the first equals sign.

`readEntry?_eq_some_iff` says that exactly the entries are read, and
`ofGroup_snd` that a group is reported on once for each of its children
that is none, in their order.
-/
import LayerPage.Configuration
import LayerPage.Proofs.Blank

namespace LayerPage

variable {α : Type} [Layer α]

-- ============================================================== children

namespace Layer

/-- The children of a layer are looked up under each index in turn. -/
theorem childrenFrom_eq (layer : α) (count index : Nat) :
    childrenFrom layer count index
      = (List.range' index count).filterMap (child? layer) := by
  induction count generalizing index with
  | zero => rfl
  | succ count ih =>
      rw [childrenFrom, List.range'_succ, List.filterMap_cons]
      cases child? layer index with
      | none => exact ih (index + 1)
      | some child => exact congrArg (child :: ·) (ih (index + 1))

/-- The children that are there are those at the indices below the number
of children. -/
theorem presentChildren_eq (layer : α) :
    presentChildren layer
      = (List.range (childCount layer)).filterMap (child? layer) := by
  rw [List.range_eq_range']
  exact childrenFrom_eq layer (childCount layer) 0

end Layer

namespace Configuration

open Text (isBlank Stops IsTrimmed stops_cons)

-- ============================================================== entries

/-- An entry as it is written: a key and a quoted value, with blanks
around each of them. -/
structure WrittenEntry where
  blanksBefore : List Char
  key : List Char
  blanksAfterKey : List Char
  blanksBeforeValue : List Char
  value : List Char
  blanksAfter : List Char
  blanks : ∀ c ∈ blanksBefore ++ blanksAfterKey ++ blanksBeforeValue
    ++ blanksAfter, isBlank c = true
  key_nonempty : key ≠ []
  key_trimmed : IsTrimmed key
  key_chars : '=' ∉ key

namespace WrittenEntry

/-- The text of an entry. -/
def text (e : WrittenEntry) : List Char :=
  e.blanksBefore ++ (e.key ++ (e.blanksAfterKey ++ '=' ::
    (e.blanksBeforeValue ++ '"' :: (e.value ++ '"' :: e.blanksAfter))))

/-- Each of the four runs of blanks is one. -/
theorem blank_parts (e : WrittenEntry) :
    (((∀ c ∈ e.blanksBefore, isBlank c = true)
      ∧ ∀ c ∈ e.blanksAfterKey, isBlank c = true)
      ∧ ∀ c ∈ e.blanksBeforeValue, isBlank c = true)
      ∧ ∀ c ∈ e.blanksAfter, isBlank c = true := by
  simpa only [List.forall_mem_append] using e.blanks

end WrittenEntry

/-- A text in quotes does not start or end with a blank. -/
theorem isTrimmed_quoted (value : List Char) :
    IsTrimmed ('"' :: (value ++ ['"'])) := by
  refine ⟨stops_cons.2 (by decide), ?_⟩
  rw [List.reverse_cons, List.reverse_append, List.reverse_singleton,
    List.singleton_append, List.cons_append]
  exact stops_cons.2 (by decide)

/-- An entry that was written out is read back. -/
theorem readEntry?_text (e : WrittenEntry) :
    readEntry? e.text = some (e.key, e.value) := by
  obtain ⟨⟨⟨hbefore, hafterKey⟩, hbeforeValue⟩, hafter⟩ := e.blank_parts
  have hequals : ∀ blanks : List Char, (∀ c ∈ blanks, isBlank c = true) →
      '=' ∉ blanks :=
    fun blanks hblanks hmem => absurd (hblanks '=' hmem) (by decide)
  have hsplit : Text.splitAt? '=' e.text
      = some (e.blanksBefore ++ (e.key ++ e.blanksAfterKey),
        e.blanksBeforeValue ++ ('"' :: (e.value ++ ['"'])
          ++ e.blanksAfter)) := by
    rw [Text.splitAt?_eq_some_iff]
    refine ⟨by simp [WrittenEntry.text], ?_⟩
    rw [List.mem_append, List.mem_append]
    rintro (hmem | hmem | hmem)
    · exact hequals _ hbefore hmem
    · exact e.key_chars hmem
    · exact hequals _ hafterKey hmem
  have hvalue := Text.trim_padded (List.cons_ne_nil _ _)
    (isTrimmed_quoted e.value) hbeforeValue hafter
  have hkey := Text.trim_padded e.key_nonempty e.key_trimmed hbefore
    hafterKey
  have hquote : Text.dropFirst? '"' ('"' :: (e.value ++ ['"']))
      = some (e.value ++ ['"']) := Text.dropFirst?_eq_some_iff.2 rfl
  have hending : Text.dropEnding? ['"'] (e.value ++ ['"'])
      = some e.value := Text.dropEnding?_eq_some_iff.2 rfl
  unfold readEntry?
  simp only [hsplit, Option.bind_eq_bind, Option.bind_some, hvalue, hquote,
    hending, hkey]
  split
  · next hnone => exact absurd hnone e.key_nonempty
  · rfl

/-- What is read as an entry is one that could be written out. -/
theorem exists_entry_of_readEntry? {cs key value : List Char}
    (h : readEntry? cs = some (key, value)) :
    ∃ e : WrittenEntry, cs = e.text ∧ key = e.key ∧ value = e.value := by
  unfold readEntry? at h
  simp only [Option.bind_eq_bind, Option.bind_eq_some_iff] at h
  obtain ⟨⟨front, back⟩, hsplit, tail, hquote, quoted, hending, hpair⟩ := h
  obtain ⟨rfl, hfront⟩ := Text.splitAt?_eq_some_iff.1 hsplit
  rw [Text.dropFirst?_eq_some_iff] at hquote
  obtain rfl := Text.dropEnding?_eq_some_iff.1 hending
  obtain ⟨before, afterKey, hbefore, hafterKey, hkey, htrimmed⟩ :=
    Text.exists_trim_padded front
  obtain ⟨beforeValue, after, hbeforeValue, hafter, hvalue, -⟩ :=
    Text.exists_trim_padded back
  split at hpair
  · cases hpair
  · next hnonempty =>
    cases hpair
    have hblanks : ∀ c ∈ before ++ afterKey ++ beforeValue ++ after,
        isBlank c = true := by
      simp only [List.forall_mem_append]
      exact ⟨⟨⟨hbefore, hafterKey⟩, hbeforeValue⟩, hafter⟩
    have hequals : '=' ∉ Text.trim front := by
      intro hmem
      apply hfront
      rw [hkey]
      exact List.mem_append_right _ (List.mem_append_left _ hmem)
    refine ⟨⟨before, Text.trim front, afterKey, beforeValue, value, after,
      hblanks, hnonempty, htrimmed, hequals⟩, ?_, rfl, rfl⟩
    rw [hquote] at hvalue
    calc front ++ '=' :: back
        = before ++ (Text.trim front ++ afterKey) ++ '=' ::
            (beforeValue ++ ('"' :: (value ++ ['"']) ++ after)) := by
          rw [← hkey, ← hvalue]
      _ = _ := by simp [WrittenEntry.text]

/-- Exactly the entries are read, each as its key and its value. -/
theorem readEntry?_eq_some_iff {cs key value : List Char} :
    readEntry? cs = some (key, value)
      ↔ ∃ e : WrittenEntry, cs = e.text ∧ key = e.key ∧ value = e.value := by
  constructor
  · exact exists_entry_of_readEntry?
  · rintro ⟨e, rfl, rfl, rfl⟩
    exact readEntry?_text e

/-- Whether a text is an entry. -/
def IsEntry (text : String) : Prop :=
  ∃ e : WrittenEntry, text.toList = e.text

/-- Entries are told by reading them. -/
theorem isEntry_iff (text : String) :
    IsEntry text ↔ readEntry? text.toList ≠ none := by
  rw [Option.ne_none_iff_exists']
  constructor
  · rintro ⟨e, htext⟩
    exact ⟨_, readEntry?_eq_some_iff.2 ⟨e, htext, rfl, rfl⟩⟩
  · rintro ⟨⟨key, value⟩, hread⟩
    obtain ⟨e, htext, -, -⟩ := readEntry?_eq_some_iff.1 hread
    exact ⟨e, htext⟩

instance (text : String) : Decidable (IsEntry text) :=
  decidable_of_iff _ (isEntry_iff text).symm

-- ============================================================== warnings

/-- What is said of a layer among the settings whose name is no entry. -/
def malformed (layer : α) : Diagnostic where
  code := "strata::config"
  message := "Parse error: malformed configuration entry '"
    ++ Layer.name layer ++ "'"
  layer? := some (Layer.name layer)

/-- A text of any other form is rejected, and shown in the fault. -/
theorem parseEntry_of_not_isEntry {text : String} (h : ¬IsEntry text) :
    parseEntry text = .error (.configurationEntry text) := by
  rw [isEntry_iff, ne_eq, Decidable.not_not] at h
  rw [parseEntry, h]

/-- A text of the form of an entry is accepted. -/
theorem exists_parseEntry_of_isEntry {text : String} (h : IsEntry text) :
    ∃ pair, parseEntry text = .ok pair := by
  rw [isEntry_iff, Option.ne_none_iff_exists'] at h
  obtain ⟨⟨key, value⟩, hread⟩ := h
  exact ⟨_, by rw [parseEntry, hread]⟩

/-- The warnings about a group are those about its children that are no
entries, in order. -/
theorem ofGroup_snd (group : α) :
    (ofGroup group).2
      = ((Layer.presentChildren group).filter
          fun child => ¬IsEntry (Layer.name child)).map malformed := by
  unfold ofGroup
  suffices general : ∀ (l : List α) (config : Configuration)
      (met : List Diagnostic), (l.foldl _ (config, met)).2
        = met ++ (l.filter
            fun child => ¬IsEntry (Layer.name child)).map malformed by
    exact general (Layer.presentChildren group) {} []
  intro l
  induction l with
  | nil => exact fun _ met => (List.append_nil met).symm
  | cons child rest ih =>
      intro config met
      rw [List.foldl_cons]
      by_cases hentry : IsEntry (Layer.name child)
      · obtain ⟨⟨key, value⟩, hparse⟩ := exists_parseEntry_of_isEntry hentry
        rw [List.filter_cons_of_neg (by simpa using hentry)]
        simp only [hparse]
        exact ih _ met
      · rw [List.filter_cons_of_pos (by simpa using hentry)]
        simp only [parseEntry_of_not_isEntry hentry]
        rw [ih, List.map_cons, List.append_assoc]
        rfl

end Configuration

end LayerPage
