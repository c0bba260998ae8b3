/-
The numbers of layout, from manifests to pages. A manifest is refused if
one of its layers has a negative size, on whatever level, so no layer of an
accepted one has (`Accepted.isSized`), and no element of a tree that is made
of its layers. Layout is then at work in a tree without negative sizes,
where it writes no negative length (`Layout.IsInference.isMeasure`). On a
finished page, what stands there without a pin is what it wrote, the reset
of the root and hidden overflow aside.

`Layout.numbers_exact` puts this together with what holds in every tree:
all numbers fit in words of 64 bits, and what is left of a height is exact.
-/
import LayerPage.Proofs.Build.Layers
import LayerPage.Proofs.Inferred
import LayerPage.Proofs.Except
import LayerPage.Proofs.Layout.Checked
import LayerPage.Proofs.Layout.Extent
import LayerPage.Proofs.Validation

namespace LayerPage

-- ================================================= layers of a manifest

namespace ManifestLayer

/-- What lies in some layers, on whatever level. -/
inductive LiesIn (layers : List ManifestLayer) : ManifestLayer → Prop
  | top {layer : ManifestLayer} (h : layer ∈ layers) : LiesIn layers layer
  | inner {layer child : ManifestLayer} (h : LiesIn layers layer)
      (hchild : child ∈ layer.children) : LiesIn layers child

/-- Whether layers are those of a manifest that was accepted, by whatever
readers: as a text in either notation, or from a file of a world, with the
readers that are there. -/
inductive Accepted : List ManifestLayer → Prop
  | parsed {readers : Readers} {raster? : FilePath → Option Raster}
      {directory : FilePath} {format : ManifestFormat} {text : String}
      {layers : List ManifestLayer}
      (h : readers.layers raster? directory format text = .ok layers) :
      Accepted layers
  | loaded {world : World} {path : FilePath} {layers : List ManifestLayer}
      (h : ((Manifest.load path : Command.Session _).run world).1
        = .ok layers) : Accepted layers

/-- Whether a layer has no negative size. -/
def IsSized (layer : ManifestLayer) : Prop :=
  0 ≤ layer.bounds.width.toInt ∧ 0 ≤ layer.bounds.height.toInt

theorem LiesIn.of_cons {first layer : ManifestLayer}
    {rest : List ManifestLayer} (h : LiesIn (first :: rest) layer) :
    layer = first ∨ LiesIn first.children layer ∨ LiesIn rest layer := by
  induction h with
  | top h => exact (List.mem_cons.1 h).imp_right fun h => .inr (.top h)
  | inner _ hchild ih =>
      rcases ih with rfl | h | h
      · exact .inr (.inl (.top hchild))
      · exact .inr (.inl (.inner h hchild))
      · exact .inr (.inr (.inner h hchild))

theorem not_liesIn_nil {layer : ManifestLayer} : ¬LiesIn [] layer := by
  intro h
  induction h with
  | top h => cases h
  | inner _ _ ih => exact ih

section Definitions

variable {raster? : FilePath → Option Raster} {directory : FilePath}

/-- A layer read from a definition without its children has no negative
size. -/
theorem isSized_of_shallow {d : LayerDefinition} {layer : ManifestLayer}
    (h : shallow raster? directory d = .ok layer) : layer.IsSized := by
  unfold shallow at h
  split at h
  · cases h
  · next hsize =>
    obtain ⟨pixels, -, rfl⟩ := Except.exists_of_map_eq_ok h
    simp only [Bool.or_eq_true, decide_eq_true_eq, not_or, Int32.lt_iff_toInt_lt,
      Int.not_lt] at hsize
    exact hsize

mutual

/-- A definition that is refused for no size has none below it either. -/
theorem isSized_of_ofDefinition : ∀ (d : LayerDefinition)
    (layer : ManifestLayer), ofDefinition raster? directory d = .ok layer →
    layer.IsSized ∧ ∀ inner, LiesIn layer.children inner → inner.IsSized
  | ⟨name, x, y, width, height, fill?, image?, kind?, children⟩ => by
      intro layer h
      rw [ofDefinition] at h
      obtain ⟨own, hown, h⟩ := Except.exists_of_bind_eq_ok h
      obtain ⟨inner, hinner, h⟩ := Except.exists_of_bind_eq_ok h
      have hsized := isSized_of_shallow hown
      cases h
      exact ⟨hsized, isSized_of_ofDefinitions children _ hinner⟩

/-- Every layer read from definitions has no negative size, at
every depth. -/
theorem isSized_of_ofDefinitions : ∀ (ds : List LayerDefinition)
    (layers : List ManifestLayer),
    ofDefinitions raster? directory ds = .ok layers →
    ∀ layer, LiesIn layers layer → layer.IsSized
  | [] => by
      intro layers h layer hlies
      cases h
      exact absurd hlies not_liesIn_nil
  | d :: ds => by
      intro layers h layer hlies
      rw [ofDefinitions] at h
      obtain ⟨first, hfirst, h⟩ := Except.exists_of_bind_eq_ok h
      obtain ⟨rest, hrest, h⟩ := Except.exists_of_bind_eq_ok h
      cases h
      obtain ⟨hsized, hbelow⟩ := isSized_of_ofDefinition d _ hfirst
      rcases hlies.of_cons with rfl | hlies | hlies
      · exact hsized
      · exact hbelow layer hlies
      · exact isSized_of_ofDefinitions ds _ hrest layer hlies

end

end Definitions

/-- No layer of an accepted manifest has a negative size. -/
theorem Accepted.isSized {layers : List ManifestLayer}
    (h : Accepted layers) {layer : ManifestLayer}
    (hlies : LiesIn layers layer) : layer.IsSized := by
  cases h with
  | parsed h =>
      obtain ⟨definitions, -, h⟩ := Except.exists_of_bind_eq_ok h
      exact isSized_of_ofDefinitions definitions _ h layer hlies
  | loaded h =>
      rw [Command.run_load] at h
      unfold World.layersOf at h
      split at h
      · cases h
      · obtain ⟨definitions, -, h⟩ := Except.exists_of_bind_eq_ok h
        exact isSized_of_ofDefinitions definitions _ h layer hlies

/-- What lies in some layers goes down from a layer to its children. -/
theorem LiesIn.child? {layers : List ManifestLayer}
    {layer child : ManifestLayer} {i : Nat} (h : LiesIn layers layer)
    (hchild : Layer.child? layer i = some child) : LiesIn layers child :=
  .inner h (List.mem_of_getElem? hchild)

end ManifestLayer

-- ================================================= pages of a manifest

open ManifestLayer (LiesIn Accepted)

variable {layers : List ManifestLayer}

/-- A tree that is made of the layers of an accepted manifest has no
negative sizes. -/
theorem ElementTree.MadeOf.isSized (haccepted : Accepted layers)
    {tree : ElementTree ManifestLayer} (h : tree.MadeOf (LiesIn layers)) :
    Layout.IsSized tree := by
  intro id
  unfold ElementTree.boundsAt
  cases hget : tree.get? id with
  | none => exact ⟨Int.le_refl 0, Int.le_refl 0⟩
  | some e => exact haccepted.isSized (h id e hget)

namespace Conversion

variable {conversion : Conversion ManifestLayer}

/-- The page of a document is made of its layers. -/
theorem exists_comesFrom_madeOf
    (h : Converter.convert {} (.ofList layers) = .ok conversion) :
    ∃ body below built,
      conversion.ComesFrom (.ofList layers) body below built
        ∧ built.tree.MadeOf (LiesIn layers) := by
  obtain ⟨body, below, built, hfrom⟩ := exists_comesFrom h
  have hbody : LiesIn layers body := .top (List.mem_of_getElem? hfrom.layer)
  exact ⟨body, below, built, hfrom,
    Construction.build_madeOf Metadata.decorates_builtin LiesIn.child? hbody
      hfrom.build⟩

/-- On the page of an accepted manifest no length is negative, pinned ones
aside. -/
theorem isMeasure_of_accepted (haccepted : Accepted layers)
    (h : Converter.convert {} (.ofList layers) = .ok conversion)
    {id : ElementId} {k v : String}
    (hfree : conversion.page.tree.isPinned id k = false)
    (hvalue : conversion.page.tree.valueOf? id k = some v) :
    Layout.IsMeasure k v := by
  obtain ⟨body, below, built, hfrom, hmade⟩ := exists_comesFrom_madeOf h
  have hsized : Layout.IsSized built.reset :=
    (hmade.restyled built.restyled_reset).isSized haccepted
  obtain ⟨writes, hrun, hwrites⟩ :=
    Layout.exists_writes_run (.refl built.reset) built.visits
  have hreset : built.reset.WellFormed built.root :=
    hfrom.builtFrom.reset_wellFormed
  have hlaidOut : built.laidOut = Layout.carryOut built.reset writes :=
    (Layout.run_eq_carryOut hreset
      (Layout.visitOrder_descendants hreset)).symm.trans hrun
  have hinfers : conversion.page.tree.Infers Layout.IsMeasure :=
    hfrom.infers (Layout.isMeasure_of_not_mem (by decide) _)
      (Layout.isMeasure_of_not_mem (by decide) _)
      (Layout.isMeasure_of_not_mem (by decide) _) hlaidOut
      fun w hw => (hwrites w hw).isMeasure hsized
  obtain ⟨e, hget, hdeclared⟩ := Option.bind_eq_some_iff.1 hvalue
  rw [ElementTree.isPinned, hget, Option.any_some] at hfree
  cases hattached : e.detached with
  | false => exact hinfers id e hget hattached k v hfree hdeclared
  | true =>
      -- an element that was merged away declares nothing
      have hempty : e.style.HandWritten := StyleRule.handWritten_of_isEmpty
        (hfrom.wellFormed.detached_empty id e hget hattached).2.2.2
      rw [hempty k hfree] at hdeclared
      cases hdeclared

end Conversion

namespace Layout

open Length (px)

/-- The numbers of layout. In any tree, whatever its bounds and rules, every
edge and every number of a visit fits in a word of 64 bits, and the only
height that a visit changes becomes exactly what is left of it. The layers
of an accepted manifest get no negative length: not from any run of layout
on a tree that is made of them, nor on the page they are converted into. -/
theorem numbers_exact :
    (∀ b : Bounds, Checked.right? b = some b.right
        ∧ Checked.bottom? b = some b.bottom)
      ∧ (∀ (α : Type) [Layer α] (tree : ElementTree α)
          (id parent : ElementId),
        Checked.boxModel? tree id parent = some (boxModel tree id parent)
          ∧ ∀ i, (boxModel tree id parent).valueOf? i "height"
            = if i = parent then
                ((remainder? tree id parent).map px).or
                  (tree.valueOf? i "height")
              else tree.valueOf? i "height")
      ∧ ∀ layers, Accepted layers →
        (∀ tree : ElementTree ManifestLayer, tree.MadeOf (LiesIn layers) →
          ∀ ids : List ElementId,
            ∃ writes, ids.foldl inferStyle tree = carryOut tree writes
              ∧ ∀ w ∈ writes, IsMeasure w.property w.value)
        ∧ ∀ conversion,
          Converter.convert {} (.ofList layers) = .ok conversion →
          conversion.page.tree.MadeOf (LiesIn layers)
            ∧ ∀ id k v, conversion.page.tree.isPinned id k = false →
              conversion.page.tree.valueOf? id k = some v →
              IsMeasure k v := by
  refine ⟨fun b => ⟨Checked.right?_eq b, Checked.bottom?_eq b⟩, ?_, ?_⟩
  · intro α _ tree id parent
    exact ⟨Checked.boxModel?_eq tree id parent,
      valueOf?_boxModel_height tree id parent⟩
  · intro layers haccepted
    refine ⟨?_, ?_⟩
    · intro tree hmade ids
      -- what is written is inferred from layers, and those have no
      -- negative size
      obtain ⟨writes, hrun, hwrites⟩ := exists_writes_run (.refl tree) ids
      exact ⟨writes, hrun,
        fun w hw => (hwrites w hw).isMeasure (hmade.isSized haccepted)⟩
    · intro conversion hconvert
      obtain ⟨body, below, built, hfrom, hmade⟩ :=
        Conversion.exists_comesFrom_madeOf hconvert
      refine ⟨hmade.restyled hfrom.restyled, ?_⟩
      intro id k v hfree hvalue
      exact Conversion.isMeasure_of_accepted haccepted hconvert hfree hvalue

open Command (Session singleLayer)

/-- A world with a manifest in which a panel makes room above its child. -/
def paddedWorld : World where
  readers := .builtin
  files :=
    ⟨[(["padded.json".toList],
        singleLayer ("\"name\": \"<body>\", \"children\": ["
          ++ "\x7b\"name\": \"panel\", \"width\": 100, \"height\": 100, "
          ++ "\"fill\": \"#fff\", \"children\": ["
          ++ "\x7b\"name\": \"title\", \"y\": 30, \"height\": 9\x7d]\x7d]"))]⟩

/-- The padding is taken from the height of the panel, and no length on the
page is negative. -/
theorem paddedWorld_exact :
    ∃ layers conversion,
      ((Manifest.load ⟨"/padded.json"⟩ : Session _).run paddedWorld).1
          = .ok layers
        ∧ Converter.convert {} (.ofList layers) = .ok conversion
        ∧ conversion.page.tree.valueOf? ⟨1⟩ "padding-top" = some "30px"
        ∧ conversion.page.tree.valueOf? ⟨1⟩ "height" = some "70px"
        ∧ ∀ id k v, conversion.page.tree.isPinned id k = false →
          conversion.page.tree.valueOf? id k = some v → IsMeasure k v := by
  have hpage : (paddedWorld.conversionOf ⟨"/padded.json"⟩).map
      (fun conversion =>
        (conversion.page.tree.valueOf? ⟨1⟩ "padding-top",
          conversion.page.tree.valueOf? ⟨1⟩ "height"))
      = .ok (some "30px", some "70px") := by
    decide +kernel
  obtain ⟨conversion, hconversion, hvalues⟩ :=
    Except.exists_of_map_eq_ok hpage
  obtain ⟨layers, hlayers, hconvert⟩ :=
    Except.exists_of_bind_eq_ok hconversion
  obtain ⟨hpadding, hheight⟩ := Prod.mk.inj hvalues
  have hload : ((Manifest.load ⟨"/padded.json"⟩ : Session _).run
      paddedWorld).1 = .ok layers := by
    rw [Command.run_load]
    exact hlayers
  exact ⟨layers, conversion, hload, hconvert, hpadding, hheight,
    ((numbers_exact.2.2 layers (.loaded hload)).2 conversion hconvert).2⟩

end Layout

end LayerPage
