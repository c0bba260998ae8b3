/-
What a group of layers settles. The names of its children are read one
after another: an entry is put over any earlier one with its key, and any
other name is reported and skipped. So a key has the value of the last
child that sets it (`get?_ofGroup_eq_some_iff`), no other key has one
(`mem_keys_ofGroup_iff`), and each child that sets nothing is reported
once (`ofGroup_snd`).

Only the children that are there count. Where the group says that it has
more, the indices without a child leave no trace
(`Layer.presentChildren_eq`).
-/
import LayerPage.Proofs.Configuration
import LayerPage.Proofs.SortedMap

namespace LayerPage

variable {α : Type} [Layer α]

namespace Configuration

-- ============================================================== entries

/-- A text is read as a key and a value exactly if it is an entry of
them. -/
theorem parseEntry_eq_ok_iff {text key value : String} :
    parseEntry text = .ok (key, value)
      ↔ ∃ e : WrittenEntry, text.toList = e.text ∧ key.toList = e.key
        ∧ value.toList = e.value := by
  rw [← readEntry?_eq_some_iff]
  unfold parseEntry
  cases readEntry? text.toList with
  | none => simp
  | some pair =>
      obtain ⟨k, v⟩ := pair
      simp [← String.toList_inj]

/-- Quotes and equals signs belong to the value, and blanks around it do
not. A lone quote is no value. -/
example :
    (parseEntry " key = \"a=\" b\" ").toOption = some ("key", "a=\" b")
      ∧ (parseEntry "key=\"").toOption = none := by
  decide +kernel

/-- Any other text is reported as it stands. -/
theorem parseEntry_eq_error_iff {text : String} {fault : Fault} :
    parseEntry text = .error fault
      ↔ ¬IsEntry text ∧ fault = .configurationEntry text := by
  by_cases hentry : IsEntry text
  · obtain ⟨pair, hparse⟩ := exists_parseEntry_of_isEntry hentry
    simp [hparse, hentry]
  · simp [parseEntry_of_not_isEntry hentry, hentry, eq_comm]

-- ============================================================= settings

/-- What a layer sets, if its name is an entry. -/
def setting? (layer : α) : Option (String × String) :=
  (parseEntry (Layer.name layer)).toOption

/-- A layer gives a setting if its name is an entry. -/
theorem setting?_eq_some_iff {layer : α} {setting : String × String} :
    setting? layer = some setting
      ↔ parseEntry (Layer.name layer) = .ok setting := by
  unfold setting?
  cases parseEntry (Layer.name layer) with
  | error fault => simp [Except.toOption]
  | ok pair => simp [Except.toOption]

/-- Whether the last of some layers that set a key sets it to a value. -/
def SetsLast (layers : List α) (key value : String) : Prop :=
  ∃ before layer after, layers = before ++ layer :: after
    ∧ parseEntry (Layer.name layer) = .ok (key, value)
    ∧ ∀ later ∈ after, ∀ other,
      parseEntry (Layer.name later) ≠ .ok (key, other)

/-- Looking a key up from the end finds what sets it last. -/
theorem lookup_settings_eq_some_iff {layers : List α}
    {key value : String} :
    (layers.filterMap setting?).reverse.lookup key = some value
      ↔ SetsLast layers key value := by
  -- the last setting stands first from the end
  rw [List.lookup_eq_some_iff]
  constructor
  · intro ⟨later, earlier, hsplit, hfree⟩
    rw [List.reverse_eq_iff, List.reverse_append, List.reverse_cons,
      List.append_assoc, List.singleton_append] at hsplit
    obtain ⟨front, back, rfl, -, hback⟩ :=
      List.filterMap_eq_append_iff.1 hsplit
    obtain ⟨skipped, layer, after, rfl, -, hlayer, hafter⟩ :=
      List.filterMap_eq_cons_iff.1 hback
    refine ⟨front ++ skipped, layer, after, by simp,
      setting?_eq_some_iff.1 hlayer, ?_⟩
    intro next hnext other hparse
    have hmem : (key, other) ∈ later := by
      rw [← List.mem_reverse, ← hafter, List.mem_filterMap]
      exact ⟨next, hnext, setting?_eq_some_iff.2 hparse⟩
    simpa using hfree _ hmem
  · intro ⟨before, layer, after, hsplit, hparse, hlast⟩
    refine ⟨(after.filterMap setting?).reverse,
      (before.filterMap setting?).reverse, ?_, ?_⟩
    · rw [hsplit, List.filterMap_append,
        List.filterMap_cons_some (setting?_eq_some_iff.2 hparse)]
      simp
    · intro setting hmem
      obtain ⟨next, hnext, hset⟩ :=
        List.mem_filterMap.1 (List.mem_reverse.1 hmem)
      rw [bne_iff_ne]
      rintro rfl
      exact hlast next hnext setting.2 (setting?_eq_some_iff.1 hset)

/-- A key is set last if it is set at all. -/
theorem exists_setsLast_iff {layers : List α} {key : String} :
    (∃ value, SetsLast layers key value)
      ↔ ∃ layer ∈ layers, ∃ value,
        parseEntry (Layer.name layer) = .ok (key, value) := by
  constructor
  · intro ⟨value, before, layer, after, hsplit, hparse, _⟩
    exact ⟨layer, by simp [hsplit], value, hparse⟩
  · intro ⟨layer, hlayer, value, hparse⟩
    cases hfound : (layers.filterMap setting?).reverse.lookup key with
    | some last => exact ⟨last, lookup_settings_eq_some_iff.1 hfound⟩
    | none =>
        have hmem : (key, value) ∈ (layers.filterMap setting?).reverse := by
          rw [List.mem_reverse, List.mem_filterMap]
          exact ⟨layer, hlayer, setting?_eq_some_iff.2 hparse⟩
        have hfree := List.lookup_eq_none_iff.1 hfound _ hmem
        simp at hfree

-- =============================================================== groups

/-- The settings of a group are put over one another in the order of its
children. -/
theorem options_ofGroup (group : α) :
    (ofGroup group).1.options
      = .ofList ((Layer.presentChildren group).filterMap setting?) := by
  unfold ofGroup
  suffices general : ∀ (l : List α) (config : Configuration)
      (met : List Diagnostic), (l.foldl _ (config, met)).1.options
        = config.options.insertAll (l.filterMap setting?) by
    exact general (Layer.presentChildren group) {} []
  intro l
  induction l with
  | nil => exact fun _ _ => rfl
  | cons child rest ih =>
      intro config met
      rw [List.foldl_cons, List.filterMap_cons, setting?]
      cases parseEntry (Layer.name child) with
      | error fault => exact ih config _
      | ok pair => exact ih (config.set pair.1 pair.2) met

/-- A group maps a key to what the last of its children that sets the key
sets it to. -/
theorem get?_ofGroup_eq_some_iff {group : α} {key value : String} :
    (ofGroup group).1.get? key = some value
      ↔ SetsLast (Layer.presentChildren group) key value := by
  rw [Configuration.get?, options_ofGroup, SortedMap.ofList,
    SortedMap.get?_insertAll, ← lookup_settings_eq_some_iff]
  show ((_ : Option String).or none) = _ ↔ _
  rw [Option.or_none]

/-- The keys of a group are those that its children set. -/
theorem mem_keys_ofGroup_iff {group : α} {key : String} :
    key ∈ (ofGroup group).1.options.keys
      ↔ ∃ child ∈ Layer.presentChildren group, ∃ value,
        parseEntry (Layer.name child) = .ok (key, value) := by
  rw [SortedMap.mem_keys_iff, SortedMap.contains,
    Option.isSome_iff_exists, ← exists_setsLast_iff]
  exact exists_congr fun value => get?_ofGroup_eq_some_iff

/-- Exactly the entries are decoded. A group, whatever number of children
it reports, holds the keys that the names of its children decode to, each
with the value that came last, and it is warned once, in order, about each
child whose name does not decode. -/
theorem ofGroup_exact (group : α) :
    (∀ text key value, parseEntry text = .ok (key, value)
        ↔ ∃ e : WrittenEntry, text.toList = e.text ∧ key.toList = e.key
          ∧ value.toList = e.value)
      ∧ (∀ text fault, parseEntry text = .error fault
        ↔ ¬IsEntry text ∧ fault = .configurationEntry text)
      ∧ Layer.presentChildren group
        = (List.range (Layer.childCount group)).filterMap
          (Layer.child? group)
      ∧ (∀ key value, (ofGroup group).1.get? key = some value
        ↔ SetsLast (Layer.presentChildren group) key value)
      ∧ (∀ key, key ∈ (ofGroup group).1.options.keys
        ↔ ∃ child ∈ Layer.presentChildren group, ∃ value,
          parseEntry (Layer.name child) = .ok (key, value))
      ∧ (ofGroup group).2
        = ((Layer.presentChildren group).filter
          fun child => ¬IsEntry (Layer.name child)).map malformed :=
  ⟨fun _ _ _ => parseEntry_eq_ok_iff, fun _ _ => parseEntry_eq_error_iff,
    Layer.presentChildren_eq group, fun _ _ => get?_ofGroup_eq_some_iff,
    fun _ => mem_keys_ofGroup_iff, ofGroup_snd group⟩

end Configuration

end LayerPage
