/-
Nothing is lost in the markup of a page. A document converted with the
builtin handlers has tags made of letters and plain names of attributes,
because layer names have them (`nameOf_isPlain`) and nothing else sets
attributes; merging lays attributes over one another. Layout touches
neither, and heuristics may not spoil them. So what is written of the
page can be read back, and two pages have the same markup exactly if the
same is seen of them.
-/
import LayerPage.Proofs.Convert
import LayerPage.Proofs.Markup.Reader

namespace LayerPage

variable {α : Type}

-- ========================================================== plain names

/-- An attribute that an entry sets has no `=` in its name if the key of
the entry has none. -/
theorem Metadata.attributeEntries_plain {entries : SortedMap String}
    (h : ∀ entry ∈ entries.toList, '=' ∉ entry.1.toList) :
    ∀ entry ∈ attributeEntries entries, '=' ∉ entry.1.toList := by
  rintro ⟨name, value⟩ hmem
  obtain ⟨⟨raw, written⟩, hentry, hset⟩ := List.mem_filterMap.1 hmem
  unfold attributeOf? at hset
  cases hsplit : splitKey? raw with
  | none =>
      rw [hsplit] at hset
      cases hset
  | some parts =>
      obtain ⟨space, key⟩ := parts
      rw [hsplit] at hset
      simp only at hset
      split at hset
      · cases hset
        intro hequals
        apply h (raw, value) hentry
        rw [(splitKey?_eq_some_iff.1 hsplit).1, String.toList_append]
        exact List.mem_append_right _ hequals
      · cases hset

namespace Construction

variable [Layer α]

/-- The attributes of a new element have plain names. -/
theorem own_hasPlainNames (layer : α) :
    (own Metadata.builtin layer).HasPlainNames := by
  have hattributes := (Reference.ownNode_describes layer).attributes
  intro entry hentry
  rw [hattributes] at hentry
  rcases SortedMap.mem_insertAll hentry with hset | hid
  · refine Metadata.attributeEntries_plain ?_ entry hset
    intro raw hraw hequals
    exact (Reference.nameOf_isPlain layer).keys raw hraw '=' hequals
      List.mem_cons_self
  · split at hid
    · cases hid
    · rcases SortedMap.mem_insertAll hid with hid | hid
      · rw [List.mem_singleton.1 hid]
        show '=' ∉ "id".toList
        decide
      · cases hid

/-- Merging lays attributes over one another, and makes up no names. -/
theorem elementOf_hasPlainNames (o : Origin α) :
    (elementOf Metadata.builtin o).HasPlainNames := by
  unfold elementOf
  have hown := own_hasPlainNames o.layer
  generalize own Metadata.builtin o.layer = e at hown
  induction o.absorbed generalizing e with
  | nil => exact hown
  | cons layer rest ih =>
      apply ih
      intro entry hentry
      rcases SortedMap.mem_insertAll hentry with habsorbed | hentry
      · exact own_hasPlainNames layer entry habsorbed
      · exact hown entry hentry

/-- The tags of an attached element can be read back, after whatever
decorated it. -/
theorem BuiltFrom.head_isPlain {root : α} {below : Forest α}
    {built : BuiltTree α}
    (h : BuiltFrom Metadata.builtin root below built)
    {tree : ElementTree α} (hdecorated : built.tree.Decorated tree)
    {id : ElementId} (hid : built.tree.isAttached id = true)
    {e : Element α} (hget : tree.get? id = some e) (htag : e.tag ≠ "") :
    e.head.IsPlain := by
  obtain ⟨o, -, rfl, _, _, _, hget₀⟩ := h.origin_links hid
  have hnames := hdecorated.names hget₀ hget (elementOf_hasPlainNames o)
  obtain ⟨e', hget', hstep⟩ := hdecorated.get? hget₀
  rw [hget] at hget'
  cases hget'
  refine ⟨htag, ?_, hnames⟩
  unfold Element.Decorated at hstep
  rw [hstep]
  show ∀ c ∈ (elementOf Metadata.builtin o).tag.toList, _
  rw [tag_elementOf]
  exact (Reference.nameOf_isPlain o.layer).tag

end Construction

-- =========================================================== conversion

/-- Children come after their parents, in a decorated tree too. -/
theorem ElementTree.WellFormed.index_lt_of_decorated
    {t t' : ElementTree α} {root : ElementId} (h : t.WellFormed root)
    (hdecorated : t.Decorated t') {id child : ElementId} {e : Element α}
    (hget : t'.get? id = some e) (hchild : child ∈ e.children) :
    id.index < child.index := by
  obtain ⟨e₀, hget₀, hstep⟩ := hdecorated.of_get? hget
  unfold Element.Decorated at hstep
  rw [hstep] at hchild
  exact h.index_lt_of_child hget₀ hchild

namespace Heuristic

/-- Whether a heuristic changes nothing but rules and attributes, and gives
new attributes plain names. -/
def Decorates (heuristic : Heuristic α) : Prop :=
  ∀ (tree : ElementTree α) id, tree.Decorated (heuristic.after tree id)

/-- Every built-in heuristic changes rules only, so it gives no attribute a
name at all. -/
theorem decorates_builtin :
    ∀ heuristic ∈ (builtin : List (Heuristic α)), heuristic.Decorates :=
  fun heuristic hmem tree id =>
    (restyles_builtin heuristic hmem tree id).decorated

end Heuristic

/-- A conversion decorates the tree of the first layer. -/
theorem Converter.decorated_of_convert [Layer α] {converter : Converter α}
    (hdecorate : ∀ heuristic ∈ converter.heuristics, heuristic.Decorates)
    {source : LayerDocument α} {conversion : Conversion α}
    (h : converter.convert source = .ok conversion) :
    ∃ body built, BuiltTree.build converter.metadata body = .ok built
      ∧ built.tree.Decorated conversion.page.tree
      ∧ conversion.page.root = built.root := by
  obtain ⟨body, built, -, hbuild, htree, hroot, -⟩ := convert_eq_refineAll h
  refine ⟨body, built, hbuild, ?_, hroot⟩
  rw [htree]
  apply refineAll_induct
  · exact fun tree id hnow =>
      hnow.trans (Layout.restyled_inferStyle tree id).decorated
  · exact fun heuristic hmem tree id hnow =>
      hnow.trans (hdecorate heuristic hmem tree id)
  · exact (ElementTree.restyled_modifyStyle pin?_resetRoot ..).decorated

/-- What is seen of a document converted with the builtin handlers has tags
that can be read back. Without remarks, its text is the markup. -/
theorem Converter.seen_of_convert [Layer α] {converter : Converter α}
    (hmetadata : converter.metadata = Metadata.builtin)
    (hdecorate : ∀ heuristic ∈ converter.heuristics, heuristic.Decorates)
    {source : LayerDocument α} {conversion : Conversion α}
    (h : converter.convert source = .ok conversion)
    (hplain : conversion.page.config.get? Configuration.commentTemplate
      = none) :
    ∃ seen : Forest (ElementId × Markup.Head),
      (∀ other, conversion.page.tree.Sees [conversion.page.root] other
        ↔ other = seen)
        ∧ (seen.labels.map Prod.fst).Nodup
        ∧ (∀ head ∈ (seen.map Prod.snd).labels, head.IsPlain)
        ∧ conversion.page.body = Markup.textOf 0 (seen.map Prod.snd) := by
  obtain ⟨body, built, hbuild, hdecorated, hroot⟩ :=
    decorated_of_convert hdecorate h
  rw [hmetadata] at hbuild
  obtain ⟨below, -, hbuilt⟩ :=
    Construction.builtFrom Metadata.decorates_builtin hbuild
  have hwell := hbuilt.wellFormed Metadata.decorates_builtin
  have hlater : ∀ q e, conversion.page.tree.get? q = some e →
      ∀ k ∈ e.children, q.index < k.index :=
    fun _ _ hget _ hk => hwell.index_lt_of_decorated hdecorated hget hk
  obtain ⟨seen, hseen, hnodup, hattached⟩ := hwell.exists_sees hdecorated
  rw [← hroot] at hseen
  have hsees := (hseen seen).2 rfl
  refine ⟨seen, hseen, hnodup, ?_, Page.body_eq_textOf hlater hplain hsees⟩
  intro head hhead
  rw [Forest.labels_map] at hhead
  obtain ⟨label, hlabel, rfl⟩ := List.mem_map.1 hhead
  obtain ⟨e, hget, htag, hlabelled⟩ := hsees.get? hlabel
  rw [hlabelled]
  exact hbuilt.head_isPlain hdecorated (hattached label hlabel) hget htag

/-- Whether the markup of a page is that of a forest: the forest is the one
that is seen from the root, with no element twice, its text is the body,
and it is read back from it. -/
structure Page.Writes (page : Page α) (visible : Forest Markup.Head) :
    Prop where
  seen : ∃ seen : Forest (ElementId × Markup.Head),
    (∀ other, page.tree.Sees [page.root] other ↔ other = seen)
      ∧ (seen.labels.map Prod.fst).Nodup
      ∧ visible = seen.map Prod.snd
  body : page.body = Markup.textOf 0 visible
  decode : Markup.decode page.body = some visible

/-- The markup of a document converted with the builtin handlers and
without remarks is that of one forest. -/
theorem Converter.writes_of_convert [Layer α] {converter : Converter α}
    (hmetadata : converter.metadata = Metadata.builtin)
    (hdecorate : ∀ heuristic ∈ converter.heuristics, heuristic.Decorates)
    {source : LayerDocument α} {conversion : Conversion α}
    (h : converter.convert source = .ok conversion)
    (hplain : conversion.page.config.get? Configuration.commentTemplate
      = none) :
    ∃ visible, conversion.page.Writes visible := by
  obtain ⟨seen, hseen, hnodup, hheads, hbody⟩ :=
    seen_of_convert hmetadata hdecorate h hplain
  refine ⟨seen.map Prod.snd, ⟨seen, hseen, hnodup, rfl⟩, hbody, ?_⟩
  rw [hbody]
  exact Markup.decode_textOf hheads

/-- Two documents, converted with the builtin handlers and without remarks,
have the same markup exactly if the same is seen of their pages, and what
is seen can be read back from the markup. -/
theorem convert_body_lossless {β : Type} [Layer α] [Layer β]
    {converter : Converter α} {converter' : Converter β}
    (hmetadata : converter.metadata = Metadata.builtin)
    (hmetadata' : converter'.metadata = Metadata.builtin)
    (hdecorate : ∀ heuristic ∈ converter.heuristics, heuristic.Decorates)
    (hdecorate' : ∀ heuristic ∈ converter'.heuristics, heuristic.Decorates)
    {source : LayerDocument α} {source' : LayerDocument β}
    {conversion : Conversion α} {conversion' : Conversion β}
    (h : converter.convert source = .ok conversion)
    (h' : converter'.convert source' = .ok conversion')
    (hplain : conversion.page.config.get? Configuration.commentTemplate
      = none)
    (hplain' : conversion'.page.config.get? Configuration.commentTemplate
      = none) :
    ∃ visible visible', conversion.page.Writes visible
      ∧ conversion'.page.Writes visible'
      ∧ (conversion.page.body = conversion'.page.body
        ↔ visible = visible') := by
  obtain ⟨visible, hwrites⟩ :=
    Converter.writes_of_convert hmetadata hdecorate h hplain
  obtain ⟨visible', hwrites'⟩ :=
    Converter.writes_of_convert hmetadata' hdecorate' h' hplain'
  refine ⟨visible, visible', hwrites, hwrites', ?_⟩
  constructor
  · intro hbody
    have hdecode := hwrites.decode
    rw [hbody, hwrites'.decode] at hdecode
    exact (Option.some_inj.1 hdecode).symm
  · intro hvisible
    rw [hwrites.body, hwrites'.body, hvisible]

/-- The sample page and its first layer, each of them a document. -/
theorem samplePage_body_lossless :
    (∀ heuristic ∈ (Heuristic.builtin : List (Heuristic ManifestLayer)),
        heuristic.Decorates)
      ∧ ∃ conversion conversion',
        Converter.convert {} (.ofList [samplePage]) = .ok conversion
          ∧ Converter.convert {} (.ofList samplePage.children)
            = .ok conversion'
          ∧ conversion.page.config.get? Configuration.commentTemplate = none
          ∧ conversion'.page.config.get? Configuration.commentTemplate
            = none
          ∧ ∃ visible visible', conversion.page.Writes visible
            ∧ conversion'.page.Writes visible'
            ∧ (conversion.page.body = conversion'.page.body
              ↔ visible = visible') := by
  obtain ⟨conversion, h, hplain⟩ : ∃ conversion,
    Converter.convert {} (.ofList [samplePage]) = .ok conversion
      ∧ conversion.page.config.get? Configuration.commentTemplate = none :=
    ⟨_, rfl, rfl⟩
  obtain ⟨conversion', h', hplain'⟩ : ∃ conversion,
    Converter.convert {} (.ofList samplePage.children) = .ok conversion
      ∧ conversion.page.config.get? Configuration.commentTemplate = none :=
    ⟨_, rfl, rfl⟩
  exact ⟨Heuristic.decorates_builtin, conversion, conversion', h, h', hplain,
    hplain', convert_body_lossless rfl rfl Heuristic.decorates_builtin
      Heuristic.decorates_builtin h h' hplain hplain'⟩

end LayerPage
