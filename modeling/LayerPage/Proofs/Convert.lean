/-
Hand-written style through a whole conversion. Whatever a name pins is on
the page: layout, heuristics and the reset of the page body only restyle
the tree that was built (`convert_eq_ok`), and restyling keeps pins. The
pins of the built tree are those of the names (`pin?_elementOf`), and the
style sheet of the page writes the rule of every element.
-/
import LayerPage.Convert
import LayerPage.Proofs.Build.Pins
import LayerPage.Proofs.Element.Restyled

namespace LayerPage

variable {α : Type}

-- =============================================================== layout

namespace Layout

/-- Centring infers, so it changes no pin. -/
theorem pin?_centre (parent own : Bounds) (rule : StyleRule) (k : String) :
    (centre parent own rule).pin? k = rule.pin? k := by
  unfold centre
  split
  · rw [StyleRule.pin?_infer, StyleRule.pin?_infer]
  · rfl

/-- Padding infers, so it changes no pin. -/
theorem pin?_padTop (offset : Int) (rule : StyleRule) (k : String) :
    (padTop offset rule).pin? k = rule.pin? k := by
  unfold padTop
  split
  · rfl
  · next padded hpadded =>
    have hpin : padded.pin? k = rule.pin? k := by
      rw [← StyleRule.pin?_infer rule "padding-top" (Length.px offset),
        StyleRule.infer, hpadded]
      rfl
    split
    · rw [StyleRule.pin?_infer, hpin]
    · exact hpin

/-- A step that infers a property of one element restyles the tree. -/
theorem restyled_infer (tree : ElementTree α) (id : ElementId)
    (property value : String) :
    tree.Restyled (tree.modifyStyle id (·.infer property value)) :=
  ElementTree.restyled_modifyStyle (fun _ _ => StyleRule.pin?_infer ..)
    tree id

variable [Layer α]

/-- Giving a background is an inference, or nothing. -/
theorem restyled_background (tree : ElementTree α) (id : ElementId) :
    tree.Restyled (background tree id) := by
  apply ElementTree.restyled_modify
  intro e
  split
  · split
    · exact .refl e
    · exact Element.restyled_modifyStyle
        (fun rule k => StyleRule.pin?_infer ..) e
  · exact .refl e

theorem restyled_dimensions (tree : ElementTree α) (id : ElementId) :
    tree.Restyled (dimensions tree id) := by
  apply ElementTree.restyled_modify
  intro e
  split
  · exact .refl e
  · apply Element.restyled_modifyStyle
    intro rule k
    rw [StyleRule.pin?_infer, StyleRule.pin?_infer]

/-- Spacing two peers is up to four inferences. -/
theorem restyled_spaceNext (tree : ElementTree α) (id : ElementId)
    (own : Bounds) (next : ElementId) :
    tree.Restyled (spaceNext tree id own next) := by
  unfold spaceNext
  simp only
  have hspaced : ∀ gap : Int, tree.Restyled
      (if gap > 0 then tree.modifyStyle next
        (·.infer "margin-top" (Length.px gap)) else tree) := fun gap =>
    (restyled_infer tree next "margin-top" _).ite
  split
  · refine .trans ?_ (restyled_infer _ id "margin-right" _).ite
    refine .trans ?_ (restyled_infer _ next "float" "left")
    refine .trans ?_ (restyled_infer _ id "float" "left")
    exact hspaced _
  · exact hspaced _

/-- The whole box model restyles, step by step. -/
theorem restyled_boxModel (tree : ElementTree α) (id parent : ElementId) :
    tree.Restyled (boxModel tree id parent) := by
  unfold boxModel
  simp only
  have hcentred := ElementTree.restyled_modifyStyle
    (pin?_centre (tree.boundsAt parent) (tree.boundsAt id)) tree id
  generalize tree.modifyStyle id _ = centred at hcentred ⊢
  have hpadded : ∀ (first : Bool) (offset : Int), centred.Restyled
      (if (first && decide (offset > 0)) = true then
        centred.modifyStyle parent (padTop offset) else centred) :=
    fun first offset => (ElementTree.restyled_modifyStyle
      (pin?_padTop offset) centred parent).ite
  split
  · refine .trans ?_ (restyled_spaceNext ..)
    exact hcentred.trans (hpadded _ _)
  · exact hcentred.trans (hpadded _ _)

/-- A visit restyles, whatever the tree. -/
theorem restyled_inferStyle (tree : ElementTree α) (id : ElementId) :
    tree.Restyled (inferStyle tree id) := by
  unfold inferStyle
  simp only
  refine .trans ((restyled_background tree id).trans
    (restyled_dimensions _ id)) ?_
  split
  · exact (restyled_boxModel _ id _).ite
  · exact .refl _

end Layout

-- =========================================================== heuristics

namespace Heuristic

/-- Whether a heuristic changes nothing but rules, and no pin. -/
def Restyles (heuristic : Heuristic α) : Prop :=
  ∀ (tree : ElementTree α) id, tree.Restyled (heuristic.after tree id)

/-- A selector is no declaration, so giving one restyles. -/
theorem restyles_classSelector :
    (classSelector : Heuristic α).Restyles := by
  intro tree id
  unfold after
  split
  · next tree' h =>
    simp only [classSelector] at h
    split at h
    · cases h
      exact .refl tree
    · split at h
      · split at h
        · cases h
          exact ElementTree.restyled_modifyStyle
            (fun _ _ => StyleRule.pin?_withSelector ..) tree id
        · cases h
      · cases h
        exact .refl tree
  · exact .refl tree

/-- Hiding overflow is an inference. -/
theorem restyles_containFloats :
    (containFloats : Heuristic α).Restyles := by
  intro tree id
  unfold after
  split
  · next tree' h =>
    simp only [containFloats] at h
    split at h
    · cases h
      exact .refl tree
    · split at h
      · cases h
        exact Layout.restyled_infer tree _ "overflow" "hidden"
      · cases h
        exact .refl tree
  · exact .refl tree

/-- All builtin heuristics restyle. -/
theorem restyles_builtin :
    ∀ heuristic ∈ (builtin : List (Heuristic α)), heuristic.Restyles := by
  intro heuristic hmem
  simp only [builtin, List.mem_cons, List.not_mem_nil, or_false] at hmem
  rcases hmem with rfl | rfl
  · exact restyles_classSelector
  · exact restyles_containFloats

/-- What each of several heuristics keeps holds after all of them, failures
included. -/
theorem applyAll_induct [Layer α] {P : ElementTree α → Prop}
    {heuristics : List (Heuristic α)}
    (hkeep : ∀ heuristic ∈ heuristics, ∀ tree id, P tree →
      P (heuristic.after tree id))
    {tree : ElementTree α} (h : P tree) (id : ElementId) :
    P (applyAll heuristics tree id).1 := by
  unfold applyAll
  refine List.foldlRecOn
    (motive := fun reached : ElementTree α × List Diagnostic =>
      P reached.1) heuristics _ h ?_
  intro reached hreached heuristic hmem
  obtain ⟨now, diagnostics⟩ := reached
  have hnext := hkeep heuristic hmem now id hreached
  unfold after at hnext
  cases hchange : heuristic.change now id with
  | ok tree' =>
      simp only [hchange] at hnext ⊢
      exact hnext
  | error fault =>
      simp only [hchange] at hnext ⊢
      exact hnext

end Heuristic

-- =========================================================== conversion

namespace Converter

/-- Resetting the root pins nothing: its margin and its padding are
inferred. -/
theorem pin?_resetRoot (rule : StyleRule) (k : String) :
    (resetRoot rule).pin? k = rule.pin? k := by
  rw [resetRoot, StyleRule.pin?_infer, StyleRule.pin?_infer]

variable [Layer α] {converter : Converter α}

/-- What layout and heuristics keep at each element holds after all of
them. -/
theorem refineAll_induct {P : ElementTree α → Prop}
    (hlayout : ∀ tree id, P tree → P (Layout.inferStyle tree id))
    (hheuristics : ∀ heuristic ∈ converter.heuristics, ∀ tree id,
      P tree → P (heuristic.after tree id))
    {tree : ElementTree α} (h : P tree) (ids : List ElementId) :
    P (converter.refineAll tree ids).1 := by
  unfold refineAll
  refine List.foldlRecOn
    (motive := fun reached : ElementTree α × List Diagnostic =>
      P reached.1) ids _ h ?_
  intro reached hreached id _
  exact Heuristic.applyAll_induct hheuristics
    (hlayout reached.1 id hreached) id

/-- A conversion builds the tree of the first layer, resets its root, and
refines it at every element below. -/
theorem convert_eq_refineAll {source : LayerDocument α}
    {conversion : Conversion α}
    (h : converter.convert source = .ok conversion) :
    ∃ body built, source.layer? 0 = some body
      ∧ BuiltTree.build converter.metadata body = .ok built
      ∧ conversion.page.tree
        = (converter.refineAll (built.tree.modifyStyle built.root resetRoot)
          ((built.tree.modifyStyle built.root resetRoot).descendants
            built.root)).1
      ∧ conversion.page.root = built.root
      ∧ conversion.page.stylesheetOrder = built.stylesheet
      ∧ conversion.diagnostics = (readConfiguration source).2
        ++ built.diagnostics
        ++ (converter.refineAll
          (built.tree.modifyStyle built.root resetRoot)
          ((built.tree.modifyStyle built.root resetRoot).descendants
            built.root)).2 := by
  unfold convert at h
  cases hbody : source.layer? 0 with
  | none => rw [hbody] at h; cases h
  | some body =>
      rw [hbody] at h
      simp only at h
      cases hbuild : BuiltTree.build converter.metadata body with
      | error fault => rw [hbuild] at h; cases h
      | ok built =>
          rw [hbuild] at h
          cases h
          exact ⟨body, built, rfl, hbuild, rfl, rfl, rfl, rfl⟩

/-- A conversion restyles the tree of the first layer, and keeps its root
and the order of its style sheet. -/
theorem convert_eq_ok
    (hrestyle : ∀ heuristic ∈ converter.heuristics, heuristic.Restyles)
    {source : LayerDocument α} {conversion : Conversion α}
    (h : converter.convert source = .ok conversion) :
    ∃ body built, source.layer? 0 = some body
      ∧ BuiltTree.build converter.metadata body = .ok built
      ∧ built.tree.Restyled conversion.page.tree
      ∧ conversion.page.root = built.root
      ∧ conversion.page.stylesheetOrder = built.stylesheet := by
  obtain ⟨body, built, hbody, hbuild, htree, hroot, horder, -⟩ :=
    convert_eq_refineAll h
  refine ⟨body, built, hbody, hbuild, ?_, hroot, horder⟩
  rw [htree]
  apply refineAll_induct
  · exact fun tree id hnow => hnow.trans (Layout.restyled_inferStyle tree id)
  · exact fun heuristic hmem tree id hnow =>
      hnow.trans (hrestyle heuristic hmem tree id)
  · exact ElementTree.restyled_modifyStyle pin?_resetRoot ..

end Converter

-- ========================================================= style sheet

/-- Whether a rule is written with a declaration on a line of its own. -/
def StyleRule.WritesLine (rule : StyleRule) (property value : String) :
    Prop :=
  ∃ before after : List String, rule.toCss
    = "\t" ++ rule.selector ++ " \x7b\n"
      ++ String.join
        (before ++ StyleRule.declarationLine property value :: after)
      ++ "\t\x7d\n\n"

/-- Whether the style sheet of a page has a rule in it. -/
def Page.HasRule (page : Page α) (rule : StyleRule) : Prop :=
  rule ∈ page.rules
    ∧ ∃ before after : String,
      page.stylesheet = before ++ rule.toCss ++ after

/-- A rule with a selector and a pin is written, and so is the pin. -/
theorem StyleRule.writesLine_of_pin? {rule : StyleRule} {k v : String}
    (hselector : rule.selector ≠ "") (hpin : rule.pin? k = some v) :
    rule.isWritten = true ∧ rule.WritesLine k v := by
  have hmem : (k, ⟨v, true⟩) ∈ rule.declarations.toList := by
    rw [SortedMap.mem_toList_iff]
    exact StyleRule.pin?_eq_some_iff.1 hpin
  obtain ⟨before, after, hsplit⟩ := List.append_of_mem hmem
  have hwritten : rule.isWritten = true := by
    have hnonempty : rule.selector.isEmpty = false := by
      rw [Bool.eq_false_iff]
      intro hempty
      exact hselector (String.isEmpty_iff.1 hempty)
    unfold StyleRule.isWritten StyleRule.isEmpty SortedMap.isEmpty
    rw [hnonempty, hsplit]
    cases before with
    | nil => rfl
    | cons entry before => rfl
  refine ⟨hwritten, ?_⟩
  unfold StyleRule.WritesLine StyleRule.toCss
  rw [if_pos hwritten, hsplit, List.map_append, List.map_cons]
  exact ⟨_, _, rfl⟩

/-- The rule of every element in the style sheet's order is in the style
sheet, if it is written at all. -/
theorem Page.hasRule_of_isWritten {page : Page α} {id : ElementId}
    {e : Element α} (hid : id ∈ page.stylesheetOrder)
    (hget : page.tree.get? id = some e)
    (hwritten : e.style.isWritten = true) : page.HasRule e.style := by
  have hmem : e.style ∈ page.rules := by
    unfold Page.rules
    rw [List.mem_filter, List.mem_filterMap]
    refine ⟨⟨id, hid, ?_⟩, hwritten⟩
    rw [hget, Option.map_some]
  refine ⟨hmem, ?_⟩
  obtain ⟨before, after, hsplit⟩ := List.append_of_mem hmem
  refine ⟨String.join (before.map (·.toCss)),
    String.join (after.map (·.toCss)), ?_⟩
  unfold Page.stylesheet
  rw [hsplit, List.map_append, List.map_cons, String.join_append,
    String.join_cons, String.append_assoc]

-- ================================================= what names pin, stays

variable [Layer α]

/-- Whether a page keeps what the names of its layers pin. For every
attached element, let the last name of its lineage that pins a property
give it a value: that is the value of the property, it is pinned, and the
element's rule in the style sheet declares it, if the rule has a selector.
Nothing else is pinned. -/
def Page.KeepsPins (page : Page α) (body : α) (below : Forest α) : Prop :=
  ∀ id e, page.tree.get? id = some e → e.detached = false →
    ∃ layer inside,
      (Forest.cons body below .nil).trees[id.index]? = some (layer, inside)
        ∧ ∀ k, k ≠ "" →
          (∀ v, lastPin? (lineage layer inside) k = some v →
            e.style.get? k = some v ∧ e.style.isPinned k = true
              ∧ (e.style.selector ≠ "" →
                page.HasRule e.style ∧ e.style.WritesLine k v))
          ∧ (lastPin? (lineage layer inside) k = none →
            e.style.isPinned k = false)

/-- What names pin is on the page, whatever the document. -/
theorem convert_keeps_pins {source : LayerDocument α}
    {conversion : Conversion α}
    (h : Converter.convert {} source = .ok conversion) :
    ∃ (body : α) (below : Forest α), source.layer? 0 = some body
      ∧ (∀ other : Forest α, other.IsBelow body ↔ other = below)
      ∧ conversion.page.KeepsPins body below := by
  obtain ⟨body, built, hbody, hbuild, hrestyled, -, horder⟩ :=
    Converter.convert_eq_ok Heuristic.restyles_builtin h
  obtain ⟨below, hbelow, hbuilt⟩ :=
    Construction.builtFrom Metadata.decorates_builtin hbuild
  refine ⟨body, below, hbody, hbelow.eq_iff, ?_⟩
  intro id e hget hattached
  have hid : built.tree.isAttached id = true := by
    rw [← hrestyled.isAttached, ElementTree.isAttached_iff]
    exact ⟨e, hget, hattached⟩
  -- the element was built for an origin, and has been restyled since
  obtain ⟨o, ho, rfl, e₀, hget₀, hstyle⟩ := hbuilt.origin hid
  obtain ⟨e', hget', hstep⟩ := hrestyled.get? hget₀
  rw [hget] at hget'
  cases hget'
  obtain ⟨layer, inside, htree, hlineage⟩ :=
    Construction.tree_of_mem_rootOutline ho
  refine ⟨layer, inside, htree, ?_⟩
  intro k hk
  have hpin : e.style.pin? k = lastPin? (lineage layer inside) k := by
    rw [hstep.pins, hstyle, Construction.pin?_elementOf o hk, hlineage]
  rw [← hpin]
  refine ⟨?_, StyleRule.pin?_eq_none_iff.1⟩
  intro v hv
  obtain ⟨hvalue, hpinned⟩ := StyleRule.get?_of_pin? hv
  refine ⟨hvalue, hpinned, ?_⟩
  intro hselector
  obtain ⟨hwritten, hline⟩ := StyleRule.writesLine_of_pin? hselector hv
  refine ⟨Page.hasRule_of_isWritten ?_ hget hwritten, hline⟩
  rw [horder, hbuilt.stylesheet, ElementTree.mem_ids_iff]
  exact ElementTree.get?_isSome_iff.1 ⟨e₀, hget₀⟩

/-- The sample page alone is converted, and keeps its pins. -/
theorem samplePage_keeps_pins :
    ∃ conversion, Converter.convert {} (.ofList [samplePage])
        = .ok conversion
      ∧ ∃ (body : ManifestLayer) (below : Forest ManifestLayer),
        (LayerDocument.ofList [samplePage]).layer? 0 = some body
        ∧ (∀ other : Forest ManifestLayer,
          other.IsBelow body ↔ other = below)
        ∧ conversion.page.KeepsPins body below := by
  obtain ⟨conversion, hconvert⟩ : ∃ conversion,
    Converter.convert {} (.ofList [samplePage]) = .ok conversion :=
      ⟨_, rfl⟩
  exact ⟨conversion, hconvert, convert_keeps_pins hconvert⟩

end LayerPage
