/-
Building from other layers. A map of layers that keeps names, kinds and
children (`Layer.Keeps`) keeps all that building reads, so building from
the other layers gives the tree that was built for the first ones, with
the other layers behind its elements, or the same fault (`build_map`).

Asking the layers for their children and planting what they answer are
looked at one after the other: the unfolding of a layer is mapped by
induction on levels and indices, the planting by induction on the forest.
-/
import LayerPage.Proofs.Build.Growth
import LayerPage.Proofs.Element.Map

namespace LayerPage

variable {α β : Type} [Layer α] [Layer β]

/-- Whether a map of layers keeps what building reads of them: names,
kinds, and the children they say they have. -/
structure Layer.Keeps (f : α → β) : Prop where
  name : ∀ layer, Layer.name (f layer) = Layer.name layer
  kind : ∀ layer, Layer.kind (f layer) = Layer.kind layer
  childCount : ∀ layer, Layer.childCount (f layer) = Layer.childCount layer
  child? : ∀ layer index, index < Layer.childCount layer →
    Layer.child? (f layer) index = (Layer.child? layer index).map f

/-- What is listed below a layer is listed below another one if children
go to children. -/
theorem Forest.ListsFrom.map {f : α → β}
    (hcount : ∀ layer, Layer.childCount (f layer) = Layer.childCount layer)
    (hchild : ∀ layer i, i < Layer.childCount layer →
      Layer.child? (f layer) i = (Layer.child? layer i).map f)
    {folder : α} {index : Nat} {forest : Forest α}
    (h : forest.ListsFrom folder index) :
    (forest.map f).ListsFrom (f folder) index := by
  induction forest generalizing folder index with
  | nil =>
      have hend : index = Layer.childCount folder := h
      exact hend.trans (hcount folder).symm
  | cons child below rest ihBelow ihRest =>
      obtain ⟨hat, hbelow, hrest⟩ := h
      have hlength := hrest.length
      refine ⟨?_, ihBelow hbelow, ihRest hrest⟩
      rw [hchild folder index (by omega), hat]
      rfl

omit [Layer α] [Layer β] in
/-- The same construction for other layers. -/
def Construction.map (f : α → β) (c : Construction α) : Construction β where
  tree := c.tree.map f
  stylesheet := c.stylesheet
  diagnostics := c.diagnostics

omit [Layer α] [Layer β] in
/-- A built tree with another layer behind each element. -/
def BuiltTree.map (f : α → β) (built : BuiltTree α) : BuiltTree β :=
  { built.toConstruction.map f with root := built.root }

namespace Construction

-- ============================================================= unfolding

variable {f : α → β}

/-- Children that are unfolded can be exchanged before or after that. The
induction is on their number, from an index on. -/
theorem unfoldChildren_map (h : Layer.Keeps f)
    {below : α → Except Fault (Forest α)}
    {below' : β → Except Fault (Forest β)}
    (hbelow : ∀ child, below' (f child) = (below child).map (·.map f))
    (layer : α) {count index : Nat}
    (hcount : index + count = Layer.childCount layer) :
    unfoldChildren below' (f layer) count index
      = (unfoldChildren below layer count index).map (·.map f) := by
  induction count generalizing index with
  | zero => rfl
  | succ count ih =>
      rw [unfoldChildren, unfoldChildren, h.child? layer index (by omega)]
      cases Layer.child? layer index with
      | none =>
          rw [h.name, h.childCount]
          rfl
      | some child =>
          simp only [Option.map_some, hbelow]
          cases below child with
          | error fault => rfl
          | ok inner =>
              simp only [Except.map]
              rw [ih (by omega)]
              cases unfoldChildren below layer count (index + 1) with
              | error fault => rfl
              | ok rest => rfl

/-- Layers that are unfolded can be exchanged before or after that, level
by level. -/
theorem unfold_map (h : Layer.Keeps f) (levels : Nat) (layer : α) :
    unfold levels (f layer) = (unfold levels layer).map (·.map f) := by
  induction levels generalizing layer with
  | zero =>
      rw [unfold, unfold, h.name]
      rfl
  | succ levels ih =>
      rw [unfold, unfold, h.childCount]
      exact unfoldChildren_map h ih layer (Nat.zero_add _)

-- ============================================================== planting

/-- A name is read the same wherever it stands. -/
theorem readName_map (h : Layer.Keeps f) (layer : α) :
    readName (f layer) = readName layer := by
  unfold readName
  rw [h.name]

/-- Merging looks at kinds and names, which are kept. -/
theorem mergePair_map (h : Layer.Keeps f) (folder child : α) :
    mergePair (f folder) (f child) = mergePair folder child := by
  unfold mergePair absorbs identifierOf
  rw [readName_map h, readName_map h, h.kind, h.kind]

/-- The entries of a name apply alike, and the same ones are refused. -/
theorem apply_builtin_map (h : Layer.Keeps f) (e : Element α)
    (entries : SortedMap String) :
    Metadata.apply Metadata.builtin (e.map f) entries
      = ((Metadata.apply Metadata.builtin e entries).1.map f,
        (Metadata.apply Metadata.builtin e entries).2) := by
  apply Prod.ext
  · rw [Metadata.apply_builtin, Metadata.apply_builtin]
    rfl
  · have hname : (e.map f).layerName = e.layerName := h.name e.layer
    rw [Metadata.apply_snd, Metadata.apply_snd, hname]

omit [Layer α] [Layer β] in
/-- A new element is made of a name, and carries its layer along. -/
theorem create_map (tag identifier : String) (layer : α) :
    Element.create tag identifier (f layer)
      = (Element.create tag identifier layer).map f := by
  unfold Element.create
  split
  · rfl
  · rfl

/-- The same element is added, with the layer exchanged. -/
theorem addOwn_map (h : Layer.Keeps f) (layer : α) (c : Construction α) :
    addOwn Metadata.builtin (f layer) (c.map f)
      = ((addOwn Metadata.builtin layer c).1.map f,
        (addOwn Metadata.builtin layer c).2) := by
  unfold addOwn addElement Construction.map
  simp only [readName_map h, create_map, apply_builtin_map h,
    ElementTree.insert_map]

/-- A child is adopted in the same way. -/
theorem adopt_map (h : Layer.Keeps f) (folder child : α)
    (id childId : ElementId) (c : Construction α) :
    adopt (f folder) (f child) id childId (c.map f)
      = (adopt folder child id childId c).map f := by
  unfold adopt Construction.map
  simp only [mergePair_map h]
  split
  · rw [ElementTree.map_merge, ElementTree.map_appendChild]
  · rw [ElementTree.map_appendChild]

omit [Layer α] [Layer β] in
theorem link_map (id : ElementId) (c : Construction α) :
    link id (c.map f) = (link id c).map f := by
  unfold link Construction.map
  rw [ElementTree.map_linkSiblings]

/-- What grows below an element is the same, by induction on the forest. -/
theorem grow_map (h : Layer.Keeps f) (folder : α) (id : ElementId)
    (forest : Forest α) (c : Construction α) :
    grow Metadata.builtin (f folder) id (forest.map f) (c.map f)
      = (grow Metadata.builtin folder id forest c).map f := by
  induction forest generalizing folder id c with
  | nil => rfl
  | cons child below rest ihBelow ihRest =>
      rw [Forest.map]
      simp only [grow]
      rw [addOwn_map h, ihBelow, link_map, adopt_map h, ihRest]

/-- What is planted is the same, with the layers exchanged. -/
theorem plant_map (h : Layer.Keeps f) (layer : α) (below : Forest α)
    (c : Construction α) :
    plant Metadata.builtin (f layer) (below.map f) (c.map f)
      = ((plant Metadata.builtin layer below c).1.map f,
        (plant Metadata.builtin layer below c).2) := by
  unfold plant
  simp only
  rw [addOwn_map h, grow_map h, link_map]

end Construction

/-- Building from other layers builds the same tree for these, or meets
the same fault. -/
theorem BuiltTree.build_map {f : α → β} (h : Layer.Keeps f) (root : α) :
    BuiltTree.build Metadata.builtin (f root)
      = (BuiltTree.build Metadata.builtin root).map (·.map f) := by
  unfold BuiltTree.build
  rw [Construction.addLayer_eq, Construction.addLayer_eq,
    Construction.unfold_map h]
  cases Construction.unfold (Construction.maxDepth + 1) root with
  | error fault => rfl
  | ok below =>
      have hempty : Construction.map f {} = {} := by
        unfold Construction.map ElementTree.map
        rw [Array.map_empty]
      have hplant := Construction.plant_map h root below {}
      rw [hempty] at hplant
      show Except.ok ({ (Construction.plant Metadata.builtin (f root)
          (below.map f) {}).1 with
        root := (Construction.plant Metadata.builtin (f root)
          (below.map f) {}).2 } : BuiltTree β) = _
      rw [hplant]
      rfl

end LayerPage
