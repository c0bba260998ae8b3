/-
Everything that a conversion reports, and nothing else. Three components
report, each to the list of the conversion: the reader of the settings,
the builder, and the heuristics. What each of them says is known from
what it is shown:

- `settingsWarnings`: the children of the group of settings that are no
  entries, in order;
- `nameWarnings`, at each layer of the body in depth-first order: that
  its name cannot be read, or which of its entries are refused;
- `classWarnings`, at each element in the order of the page: that its
  class attribute names no class, where it has no identifier.

A merged layer is reported on where it stands among the layers, since
its element is made before it is merged, and no more after that, since
its element is not visited again (`convert_diagnostics`).
-/
import LayerPage.Proofs.Configuration
import LayerPage.Proofs.Conversion

namespace LayerPage

variable {α : Type}

-- ============================================================== settings

/-- The warnings about the settings of a document. -/
def settingsWarnings [Layer α] (source : LayerDocument α) :
    List Diagnostic :=
  match source.layer? 1 with
  | none => []
  | some group =>
    if Layer.name group = "configuration" then
      (((List.range (Layer.childCount group)).filterMap
        (Layer.child? group)).filter
          fun child => ¬Configuration.IsEntry (Layer.name child)).map
        Configuration.malformed
    else []

/-- Reading the settings warns of each malformed entry, in order. -/
theorem readConfiguration_snd [Layer α] (source : LayerDocument α) :
    (Converter.readConfiguration source).2 = settingsWarnings source := by
  unfold Converter.readConfiguration settingsWarnings
  cases source.layer? 1 with
  | none => rfl
  | some group =>
      by_cases hname : Layer.name group = "configuration"
      · have hgroup : Layer.name group = Configuration.groupName := hname
        simp only [if_pos hname, if_pos hgroup]
        rw [Configuration.ofGroup_snd, Layer.presentChildren_eq]
      · have hgroup : Layer.name group ≠ Configuration.groupName := hname
        simp only [if_neg hname, if_neg hgroup]

-- ================================================================= names

/-- The warnings about the name of a layer. -/
def nameWarnings [Layer α] (layer : α) : List Diagnostic :=
  match LayerName.parse (Layer.name layer) with
  | .error fault =>
    [{ code := "strata::layer-name"
       message := fault.message
       layer? := some (Layer.name layer)
       help? := some "The layer is kept as an empty element" }]
  | .ok name =>
    name.entries.toList.filterMap
      (Metadata.refusal? (Layer.name layer) ·.1)

namespace Construction

variable [Layer α]

theorem layerName_create (tag identifier : String) (layer : α) :
    (Element.create tag identifier layer).layerName = Layer.name layer := by
  unfold Element.create
  split
  · rfl
  · rfl

/-- Adding a layer warns about its name and its entries. -/
theorem addOwn_diagnostics (layer : α) (c : Construction α) :
    (addOwn Metadata.builtin layer c).1.diagnostics
      = c.diagnostics ++ nameWarnings layer := by
  unfold addOwn readName nameWarnings
  cases LayerName.parse (Layer.name layer) with
  | error fault =>
      simp only [addElement, Metadata.apply_snd]
      exact List.append_nil _
  | ok name =>
      simp only [addElement, Metadata.apply_snd, layerName_create,
        List.append_nil]

/-- Each layer of a forest is reported on once, in depth-first order. -/
theorem grow_diagnostics (folder : α) (id : ElementId) (forest : Forest α)
    (c : Construction α) :
    (grow Metadata.builtin folder id forest c).diagnostics
      = c.diagnostics ++ forest.labels.flatMap nameWarnings := by
  induction forest generalizing folder id c with
  | nil => exact (List.append_nil _).symm
  | cons child below rest ihBelow ihRest =>
      have hchild : (plant Metadata.builtin child below c).1.diagnostics
          = c.diagnostics ++ nameWarnings child
            ++ below.labels.flatMap nameWarnings := by
        rw [← addOwn_diagnostics]
        exact ihBelow child _ _
      rw [grow_cons, ihRest]
      show (plant Metadata.builtin child below c).1.diagnostics ++ _ = _
      rw [hchild, Forest.labels, List.flatMap_cons, List.flatMap_append]
      simp only [List.append_assoc]

/-- So is each layer of a tree that was built, the root first. -/
theorem build_diagnostics {root : α} {below : Forest α}
    {built : BuiltTree α} (hbelow : below.IsBelow root)
    (h : BuiltTree.build Metadata.builtin root = .ok built) :
    built.diagnostics = (root :: below.labels).flatMap nameWarnings := by
  obtain ⟨below', hbelow', hbuilt, -⟩ := build_eq_ok h
  obtain rfl := (hbelow'.eq_iff below).1 hbelow
  rw [hbuilt]
  show (grow Metadata.builtin root _ below _).diagnostics = _
  rw [grow_diagnostics, addOwn_diagnostics]
  rfl

end Construction

-- =============================================================== classes

/-- Whether an element without an identifier has a class attribute of
blanks alone. -/
def Element.NamesNoClass (e : Element α) : Prop :=
  (∀ identifier, e.attribute? "id" = some identifier → identifier = "")
    ∧ ∃ classes, e.attribute? "class" = some classes
      ∧ ∀ c ∈ classes.toList, Text.isBlank c = true

/-- An element has a blank class exactly if nothing but its class attribute
could select it and that names no class. -/
theorem Element.hasBlankClass_iff (e : Element α) :
    e.hasBlankClass = true ↔ e.NamesNoClass := by
  unfold Element.hasBlankClass Element.NamesNoClass
  rw [Bool.and_eq_true, Option.isNone_iff_eq_none, identifier?_eq_none_iff,
    Option.any_eq_true]
  simp only [Option.isNone_iff_eq_none, Text.firstWord?_eq_none_iff]

instance (e : Element α) : Decidable e.NamesNoClass :=
  decidable_of_iff _ e.hasBlankClass_iff

/-- The warnings about the classes of an element. -/
def classWarnings [Layer α] (tree : ElementTree α) (id : ElementId) :
    List Diagnostic :=
  match tree.get? id with
  | none => []
  | some e =>
    if e.NamesNoClass then
      [{ code := "strata::heuristic"
         message := "Heuristic 'class-selector' failed: "
           ++ "class attribute is empty"
         layer? := some (Layer.name e.layer) }]
    else []

/-- The heuristics complain about the class of an element and
nothing else. -/
theorem complaints_eq [Layer α] (tree : ElementTree α) (id : ElementId) :
    Heuristic.complaints tree id = classWarnings tree id := by
  unfold Heuristic.complaints classWarnings
  cases tree.get? id with
  | none => rfl
  | some e =>
      rw [Option.filter_some]
      simp only [e.hasBlankClass_iff]
      split
      · rfl
      · rfl

-- ============================================================ everything

variable [Layer α]

/-- The diagnostics of a conversion: about the settings, about the name of
each layer of the body, and about the classes of each element that is
attached in the end. -/
theorem convert_diagnostics {source : LayerDocument α}
    {conversion : Conversion α}
    (h : Converter.convert {} source = .ok conversion) :
    ∃ (body : α) (below : Forest α), source.layer? 0 = some body
      ∧ (∀ other : Forest α, other.IsBelow body ↔ other = below)
      ∧ conversion.page.tree.descendants conversion.page.root
        = conversion.page.tree.attached
      ∧ conversion.diagnostics
        = settingsWarnings source
          ++ (body :: below.labels).flatMap nameWarnings
          ++ (conversion.page.tree.descendants conversion.page.root).flatMap
            (classWarnings conversion.page.tree) := by
  obtain ⟨body, below, built, hfrom⟩ := Conversion.exists_comesFrom h
  refine ⟨body, below, hfrom.layer, hfrom.isBelow.eq_iff, ?_, ?_⟩
  · rw [hfrom.descendants, hfrom.visits_eq_attached]
  · have hclasses : Heuristic.complaints built.laidOut
        = classWarnings conversion.page.tree := by
      funext id
      rw [← complaints_eq, Heuristic.complaints_congr hfrom.restyled,
        Heuristic.complaints_congr built.restyled_laidOut]
    rw [hfrom.diagnostics, readConfiguration_snd, hfrom.descendants,
      Construction.build_diagnostics hfrom.isBelow hfrom.build, hclasses]

/-- A page with a name that cannot be read, a merged layer with an entry
that is refused, others with entries refused for other reasons, and a
class attribute of blanks, each of them below the one before. -/
def troubledPage : ManifestLayer where
  name := "<body>"
  bounds := ⟨0, 0, 100, 200⟩
  kind := .normal
  pixels := .solid ⟨255, 255, 255, 255⟩
  children :=
    [.folder "<p" ⟨0, 0, 100, 200⟩
      [.folder "box" ⟨0, 10, 100, 50⟩
        [{ ManifestLayer.solid "box[css:=\"0px\"]" ⟨0, 10, 100, 50⟩
              ⟨0, 0, 0, 255⟩ with
            children :=
              [.folder "[wide=\"1\"]" ⟨0, 10, 50, 50⟩
                [.folder "[svg:fill=\"red\"]" ⟨0, 10, 40, 40⟩
                  [.solid "[attr:class=\" \"]" ⟨0, 10, 10, 10⟩
                    ⟨0, 0, 0, 255⟩]]] }]]]

/-- Settings of which the second one is none. -/
def troubledSettings : ManifestLayer :=
  .folder "configuration" ⟨0, 0, 0, 0⟩
    [.solid "title=\"Home\"" ⟨0, 0, 0, 0⟩ ⟨0, 0, 0, 0⟩,
      .solid "title=Home" ⟨0, 0, 0, 0⟩ ⟨0, 0, 0, 0⟩]

/-- The troubled page is converted, and all its troubles are reported. -/
theorem troubledPage_diagnostics :
    ∃ conversion, Converter.convert {}
        (.ofList [troubledPage, troubledSettings]) = .ok conversion
      ∧ conversion.diagnostics.map (fun d => (d.code, d.layer?))
        = [("strata::config", some "title=Home"),
          ("strata::layer-name", some "<p"),
          ("strata::metadata", some "box[css:=\"0px\"]"),
          ("strata::metadata", some "[wide=\"1\"]"),
          ("strata::metadata", some "[svg:fill=\"red\"]"),
          ("strata::heuristic", some "[attr:class=\" \"]")]
      ∧ ∃ (body : ManifestLayer) (below : Forest ManifestLayer),
        (LayerDocument.ofList [troubledPage, troubledSettings]).layer? 0
            = some body
        ∧ (∀ other : Forest ManifestLayer,
          other.IsBelow body ↔ other = below)
        ∧ conversion.page.tree.descendants conversion.page.root
          = conversion.page.tree.attached
        ∧ conversion.diagnostics
          = settingsWarnings (.ofList [troubledPage, troubledSettings])
            ++ (body :: below.labels).flatMap nameWarnings
            ++ (conversion.page.tree.descendants
              conversion.page.root).flatMap
              (classWarnings conversion.page.tree) := by
  have hrun : ((Converter.convert {}
      (.ofList [troubledPage, troubledSettings])).toOption.map
        fun conversion => conversion.diagnostics.map
          fun d => (d.code, d.layer?))
      = some [("strata::config", some "title=Home"),
        ("strata::layer-name", some "<p"),
        ("strata::metadata", some "box[css:=\"0px\"]"),
        ("strata::metadata", some "[wide=\"1\"]"),
        ("strata::metadata", some "[svg:fill=\"red\"]"),
        ("strata::heuristic", some "[attr:class=\" \"]")] := by
    decide +kernel
  obtain ⟨conversion, hconvert, hmet⟩ := Converter.exists_conversion hrun
  exact ⟨conversion, hconvert, hmet, convert_diagnostics hconvert⟩

end LayerPage
