/-
Whether a rule applies to the element it was written for. A selector is
fixed when an element is made, from the identifier in its name; the
attributes it is to match are still changed afterwards, by entries of the
name and by merged layers. The heuristic for classes selects anew, but
only what has no identifier.

# When it does

`convert_selector` gives the final selector of every element, and
`convert_selects_iff` says when it selects the element: if the name has
no identifier, or it is still the value of the attribute `id`, or that
attribute was emptied and the element has a class. An entry for `id` in a
name with an identifier is what breaks it: the rule keeps the old
identifier (`renamed_not_selected`).

A selector that starts with `#` is neither a tag nor a tag with a class,
since tags are made of letters (`not_selected_by_identifier`).
-/
import LayerPage.Proofs.Conversion

namespace LayerPage

namespace Text

-- ================================================================ words

/-- Whether a text is one of the words of another one: without blanks, and
with a blank or an end on either side. -/
def IsWord (word text : List Char) : Prop :=
  word ≠ [] ∧ (∀ c ∈ word, isBlank c = false)
    ∧ ∃ before after, text = before ++ word ++ after
      ∧ Stops (!isBlank ·) before.reverse ∧ Stops (!isBlank ·) after

/-- The first word of a text is a word of it. -/
theorem isWord_of_firstWord? {text word : List Char}
    (h : firstWord? text = some word) : IsWord word text := by
  obtain ⟨blanks, hblanks, htext⟩ := exists_blanks_trimStart text
  unfold firstWord? at h
  split at h
  · cases h
  · next hne =>
    cases h
    refine ⟨hne, ?_, blanks, (trimStart text).dropWhile (!isBlank ·), ?_,
      ?_, stops_dropWhile _ _⟩
    · intro c hc
      rw [← Bool.not_eq_true']
      exact mem_takeWhile (p := (!isBlank ·)) hc
    · rw [List.append_assoc, List.takeWhile_append_dropWhile]
      exact htext
    · intro c hc
      have hmem : c ∈ blanks := List.mem_reverse.1 (List.mem_of_mem_head? hc)
      exact (Bool.not_eq_false' _).mpr (hblanks c hmem)

end Text

variable {α : Type}

-- ============================================================ selecting

namespace Element

/-- Whether a selector selects an element as it is written: by the
attribute `id`, by the tag, or by the tag and one of its classes. -/
def IsSelectedBy (e : Element α) (selector : String) : Prop :=
  (∃ identifier, e.attribute? "id" = some identifier
      ∧ selector = "#" ++ identifier)
    ∨ selector = e.tag
    ∨ ∃ classes word, e.attribute? "class" = some classes
        ∧ Text.IsWord word classes.toList
        ∧ selector = e.tag ++ "." ++ String.ofList word

/-- Which class selects an element does not depend on its rule. -/
theorem Restyled.classSelector? {e e' : Element α} (h : e.Restyled e') :
    e'.classSelector? = e.classSelector? := by
  rw [h.rule_only]
  rfl

/-- Who is selected by a class is so by one of its own. -/
theorem exists_word_of_classSelector? {e : Element α} {selector : String}
    (h : e.classSelector? = some selector) :
    ∃ classes word, e.attribute? "class" = some classes
      ∧ Text.IsWord word classes.toList
      ∧ selector = e.tag ++ "." ++ String.ofList word := by
  unfold Element.classSelector? at h
  split at h
  · cases h
  · obtain ⟨classes, hclasses, hfirst⟩ := Option.bind_eq_some_iff.1 h
    obtain ⟨word, hword, rfl⟩ := Option.map_eq_some_iff.1 hfirst
    exact ⟨classes, word, hclasses, Text.isWord_of_firstWord? hword, rfl⟩

/-- The selector made from the class of an element selects the element. -/
theorem isSelectedBy_classSelector? {e : Element α} {selector : String}
    (h : e.classSelector? = some selector) : e.IsSelectedBy selector :=
  .inr (.inr (exists_word_of_classSelector? h))

/-- An identifier selects nothing but what has it. -/
theorem isSelectedBy_identifier_iff {e : Element α}
    (htag : ∀ c ∈ e.tag.toList, c.isAlpha = true) {identifier : String} :
    e.IsSelectedBy ("#" ++ identifier)
      ↔ e.attribute? "id" = some identifier := by
  have hsharp : ∀ rest : String, "#" ++ identifier ≠ e.tag ++ rest
      ∨ e.tag = "" := by
    intro rest
    cases hchars : e.tag.toList with
    | nil => exact .inr (String.toList_eq_nil_iff.1 hchars)
    | cons c cs =>
        refine .inl fun heq => ?_
        have hfirst := congrArg (·.toList.head?) heq
        simp only [String.toList_append, hchars] at hfirst
        have hletter := htag c (hchars ▸ List.mem_cons_self)
        cases hfirst
        exact absurd hletter (by decide)
  constructor
  · rintro (⟨other, hid, heq⟩ | heq | ⟨classes, word, -, -, heq⟩)
    · rw [hid, (String.append_right_inj _).1 heq]
    · rcases hsharp "" with hne | hempty
      · exact absurd (heq.trans String.append_empty.symm) hne
      · rw [hempty] at heq
        exact absurd (congrArg (·.toList.head?) heq) (by simp)
    · rw [String.append_assoc] at heq
      rcases hsharp ("." ++ String.ofList word) with hne | hempty
      · exact absurd heq hne
      · rw [hempty] at heq
        exact absurd (congrArg (·.toList.head?) heq) (by simp)
  · intro hid
    exact .inl ⟨identifier, hid, rfl⟩

end Element

-- ====================================================== final selectors

namespace ElementTree

/-- The selector of an element's rule. -/
def selector? (tree : ElementTree α) (id : ElementId) : Option String :=
  (tree.get? id).map (·.style.selector)

/-- A change of rules which keeps the selectors keeps them in the whole
tree. -/
theorem selector?_modifyStyle {f : StyleRule → StyleRule}
    (hf : ∀ rule, (f rule).selector = rule.selector) (tree : ElementTree α)
    (id i : ElementId) :
    (tree.modifyStyle id f).selector? i = tree.selector? i := by
  unfold selector? ElementTree.modifyStyle
  rw [get?_modify]
  split
  · rw [Option.map_map]
    congr 1
    funext e
    exact hf e.style
  · rfl

/-- Inferences leave the selector alone. -/
theorem selector?_carryOut (tree : ElementTree α)
    (writes : List Layout.Write) (i : ElementId) :
    (Layout.carryOut tree writes).selector? i = tree.selector? i := by
  induction writes generalizing tree with
  | nil => rfl
  | cons w rest ih =>
      exact (ih _).trans (selector?_modifyStyle
        (fun rule => StyleRule.infer_selector ..) tree w.target i)

/-- How an element is selected anew depends on its tag, its attributes and
the selector it has. -/
theorem Restyled.reselected {t t' : ElementTree α} (h : t.Restyled t')
    {i : ElementId} (hsame : t'.selector? i = t.selector? i) :
    (t'.get? i).map (·.reselected.style.selector)
      = (t.get? i).map (·.reselected.style.selector) := by
  cases hget : t.get? i with
  | none =>
      have hnone : t'.get? i = none := by
        rw [get?_eq_none_iff, h.size, ← get?_eq_none_iff]
        exact hget
      rw [hnone]
  | some e =>
      obtain ⟨e', hget', hstep⟩ := h.get? hget
      rw [selector?, selector?, hget, hget', Option.map_some,
        Option.map_some, Option.some_inj] at hsame
      rw [hget', Option.map_some, Option.map_some]
      show some (e'.classSelector?.getD e'.style.selector)
        = some (e.classSelector?.getD e.style.selector)
      rw [hstep.classSelector?, hsame]

end ElementTree

variable [Layer α]

namespace Construction

/-- Merging leaves the selector alone, so that it is by the identifier in
the name, or else by the tag. -/
theorem selector_elementOf (o : Origin α) :
    (elementOf Metadata.builtin o).style.selector
      = if (Reference.nameOf o.layer).identifier = "" then
          (Reference.nameOf o.layer).tag
        else "#" ++ (Reference.nameOf o.layer).identifier := by
  have hown : (own Metadata.builtin o.layer).style.selector
      = if (Reference.nameOf o.layer).identifier = "" then
          (Reference.nameOf o.layer).tag
        else "#" ++ (Reference.nameOf o.layer).identifier := by
    rw [(Reference.ownNode_describes o.layer).style, Reference.Node.rule,
      StyleRule.pinAll_selector]
    simp only [String.isEmpty_iff]
    rfl
  rw [← hown]
  unfold elementOf
  generalize own Metadata.builtin o.layer = e
  induction o.absorbed generalizing e with
  | nil => rfl
  | cons layer rest ih =>
      exact (ih _).trans (StyleRule.pinAll_selector ..)

end Construction

/-- In the end an element is selected by its first class, or else as it was
when it was built. -/
theorem Conversion.ComesFrom.selector? {conversion : Conversion α}
    {source : LayerDocument α} {body : α} {below : Forest α}
    {built : BuiltTree α}
    (h : conversion.ComesFrom source body below built) {id : ElementId}
    (hid : built.tree.isAttached id = true) :
    conversion.page.tree.selector? id
      = (built.tree.get? id).map (·.reselected.style.selector) := by
  have hvisited : id ∈ built.visits := h.mem_visits_iff.2 hid
  have hkept : built.laidOut.selector? id = built.tree.selector? id := by
    rw [BuiltTree.laidOut, ElementTree.selector?_carryOut]
    apply ElementTree.selector?_modifyStyle
    intro rule
    simp only [Converter.resetRoot, StyleRule.infer_selector]
  rw [h.tree, ElementTree.selector?_carryOut, ElementTree.selector?,
    Heuristic.get?_selectAll, if_pos hvisited, Option.map_map]
  exact built.restyled_laidOut.reselected hkept

/-- Every attached element of a finished page has an origin, and is what
that becomes, with links and styled anew. -/
theorem Conversion.ComesFrom.exists_origin {conversion : Conversion α}
    {source : LayerDocument α} {body : α} {below : Forest α}
    {built : BuiltTree α}
    (h : conversion.ComesFrom source body below built) {id : ElementId}
    {e : Element α} (hget : conversion.page.tree.get? id = some e)
    (hattached : e.detached = false) :
    ∃ o ∈ (Construction.rootOutline body below).labels, o.id = id
      ∧ (∃ parent? children siblings,
        Element.Restyled { Construction.elementOf Metadata.builtin o with
          parent?, children, siblings } e)
      ∧ e.style.selector = e.classSelector?.getD
        (Construction.elementOf Metadata.builtin o).style.selector := by
  have hid : built.tree.isAttached id = true := by
    rw [← h.restyled.isAttached, ElementTree.isAttached_iff]
    exact ⟨e, hget, hattached⟩
  obtain ⟨o, ho, rfl, parent?, children, siblings, hget₀⟩ :=
    h.builtFrom.origin_links hid
  obtain ⟨e', hget', hstep⟩ := h.restyled.get? hget₀
  rw [hget] at hget'
  cases hget'
  refine ⟨o, ho, rfl, ⟨parent?, children, siblings, hstep⟩, ?_⟩
  have hselector : conversion.page.tree.selector? o.id
      = some e.style.selector := by
    rw [ElementTree.selector?, hget]
    rfl
  rw [h.selector? hid, hget₀, Option.map_some, Option.some_inj]
    at hselector
  rw [← hselector, hstep.classSelector?]
  rfl

/-- The final tag and selector of every element: the tag is that of the
name it was made from, and the selector is by the first of its classes, by
the identifier in the name, or by the tag. -/
theorem convert_selector {source : LayerDocument α}
    {conversion : Conversion α}
    (h : Converter.convert {} source = .ok conversion) :
    ∃ (body : α) (below : Forest α), source.layer? 0 = some body
      ∧ (∀ other : Forest α, other.IsBelow body ↔ other = below)
      ∧ ∀ id e, conversion.page.tree.get? id = some e →
        e.detached = false → ∃ layer inside,
          (Forest.cons body below .nil).trees[id.index]?
              = some (layer, inside)
            ∧ e.tag = (Reference.nameOf layer).tag
            ∧ e.style.selector = e.classSelector?.getD
              (if (Reference.nameOf layer).identifier = "" then e.tag
                else "#" ++ (Reference.nameOf layer).identifier) := by
  obtain ⟨body, below, built, hfrom⟩ := Conversion.exists_comesFrom h
  refine ⟨body, below, hfrom.layer, hfrom.isBelow.eq_iff, ?_⟩
  intro id e hget hattached
  obtain ⟨o, ho, rfl, ⟨_, _, _, hstep⟩, hselector⟩ :=
    hfrom.exists_origin hget hattached
  obtain ⟨layer, inside, htree, hlineage⟩ :=
    Construction.tree_of_mem_rootOutline ho
  obtain ⟨rfl, -⟩ := List.cons.inj hlineage
  have htag : e.tag = (Reference.nameOf o.layer).tag := by
    rw [hstep.rule_only]
    exact Construction.tag_elementOf o
  refine ⟨o.layer, inside, htree, htag, ?_⟩
  rw [htag, ← Construction.selector_elementOf]
  exact hselector

-- ============================================================ agreement

/-- The rule of an element selects it if its name has no identifier, if
that is the value of its attribute `id`, or if it is selected by a class;
and in no other case. -/
theorem convert_selects_iff {source : LayerDocument α}
    {conversion : Conversion α}
    (h : Converter.convert {} source = .ok conversion) :
    ∃ (body : α) (below : Forest α), source.layer? 0 = some body
      ∧ (∀ other : Forest α, other.IsBelow body ↔ other = below)
      ∧ ∀ id e, conversion.page.tree.get? id = some e →
        e.detached = false → ∃ layer inside,
          (Forest.cons body below .nil).trees[id.index]?
              = some (layer, inside)
            ∧ (e.IsSelectedBy e.style.selector
              ↔ (Reference.nameOf layer).identifier = ""
                ∨ e.attribute? "id"
                  = some (Reference.nameOf layer).identifier
                ∨ e.classSelector?.isSome = true) := by
  obtain ⟨body, below, hbody, hbelow, hselector⟩ := convert_selector h
  refine ⟨body, below, hbody, hbelow, ?_⟩
  intro id e hget hattached
  obtain ⟨layer, inside, htree, htag, hrule⟩ := hselector id e hget hattached
  refine ⟨layer, inside, htree, ?_⟩
  rw [hrule]
  cases hclass : e.classSelector? with
  | some selector =>
      exact iff_of_true (Element.isSelectedBy_classSelector? hclass)
        (.inr (.inr rfl))
  | none =>
      rw [Option.getD_none]
      by_cases hidentifier : (Reference.nameOf layer).identifier = ""
      · rw [if_pos hidentifier]
        exact iff_of_true (.inr (.inl rfl)) (.inl hidentifier)
      · -- a tag of letters is no selector by identifier
        have hletters : ∀ c ∈ e.tag.toList, c.isAlpha = true := by
          rw [htag]
          exact (Reference.nameOf_isPlain layer).tag
        rw [if_neg hidentifier, Element.isSelectedBy_identifier_iff hletters]
        simp [hidentifier]

/-- The sample page. -/
theorem samplePage_selects_iff :
    ∃ conversion, Converter.convert {} (.ofList [samplePage])
        = .ok conversion
      ∧ ∃ (body : ManifestLayer) (below : Forest ManifestLayer),
        (LayerDocument.ofList [samplePage]).layer? 0 = some body
        ∧ (∀ other : Forest ManifestLayer,
          other.IsBelow body ↔ other = below)
        ∧ ∀ id e, conversion.page.tree.get? id = some e →
          e.detached = false → ∃ layer inside,
            (Forest.cons body below .nil).trees[id.index]?
                = some (layer, inside)
              ∧ (e.IsSelectedBy e.style.selector
                ↔ (Reference.nameOf layer).identifier = ""
                  ∨ e.attribute? "id"
                    = some (Reference.nameOf layer).identifier
                  ∨ e.classSelector?.isSome = true) := by
  obtain ⟨conversion, hconvert⟩ : ∃ conversion,
    Converter.convert {} (.ofList [samplePage]) = .ok conversion :=
      ⟨_, rfl⟩
  exact ⟨conversion, hconvert, convert_selects_iff hconvert⟩

/-- A page with a box whose attribute `id` is set by an entry of its name,
which has an identifier as well. -/
def renamedPage : ManifestLayer where
  name := "<body>"
  bounds := ⟨0, 0, 100, 200⟩
  kind := .normal
  pixels := .solid ⟨255, 255, 255, 255⟩
  children := [.solid "box[attr:id=\"hero\"]" ⟨0, 10, 100, 50⟩ ⟨0, 0, 0, 255⟩]

/-- The rule of the renamed box keeps its first identifier, while the box
is written with the other one, so that nothing selects it. -/
theorem renamed_not_selected :
    ∃ conversion, Converter.convert {} (.ofList [renamedPage])
        = .ok conversion
      ∧ conversion.page.body
        = "<body>\n\t<div id=\"hero\">\n\t</div>\n</body>\n"
      ∧ ∃ e, conversion.page.tree.get? ⟨1⟩ = some e
        ∧ e.detached = false ∧ e.tag = "div"
        ∧ e.attribute? "id" = some "hero" ∧ e.style.selector = "#box"
        ∧ ¬e.IsSelectedBy e.style.selector := by
  have hrun : ((Converter.convert {} (.ofList [renamedPage])).toOption.bind
      fun conversion => (conversion.page.tree.get? ⟨1⟩).map fun e =>
        (conversion.page.body, e.detached, e.tag, e.attribute? "id",
          e.style.selector))
      = some ("<body>\n\t<div id=\"hero\">\n\t</div>\n</body>\n", false,
        "div", some "hero", "#box") := by decide +kernel
  obtain ⟨conversion, hsome, helement⟩ := Option.bind_eq_some_iff.1 hrun
  obtain ⟨e, hget, hfields⟩ := Option.map_eq_some_iff.1 helement
  have hconvert : Converter.convert {} (.ofList [renamedPage])
      = .ok conversion := by
    cases hresult : Converter.convert {} (.ofList [renamedPage]) with
    | error fault => rw [hresult] at hsome; cases hsome
    | ok result => rw [hresult] at hsome; cases hsome; rfl
  rw [Prod.mk.injEq, Prod.mk.injEq, Prod.mk.injEq, Prod.mk.injEq] at hfields
  obtain ⟨hbody, hattached, htag, hid, hselector⟩ := hfields
  refine ⟨conversion, hconvert, hbody, e, hget, hattached, htag, hid,
    hselector, ?_⟩
  have hletters : ∀ c ∈ e.tag.toList, c.isAlpha = true := by
    rw [htag]
    exact List.all_eq_true.1 (by decide)
  rw [hselector]
  show ¬e.IsSelectedBy ("#" ++ "box")
  rw [Element.isSelectedBy_identifier_iff hletters, hid]
  decide

end LayerPage
