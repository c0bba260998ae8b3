/-
Building, taken apart. A run of the builder does two things at once: it
asks each layer for its children, which can fail, and it adds elements,
which cannot. Here the two are separated:

- `unfold` asks, and returns the forest of all layers below a layer or
  the first fault that is met;
- `plant` adds the elements of a layer and of a given forest below it.

`addLayer_eq` says that building is the one after the other, so every
later statement about a tree that was built is a statement about `plant`,
by induction on a forest, with neither levels nor indices nor faults in
sight. What `unfold` returns is pinned down by `Forest.IsBelow`: exactly
the children each layer reports, in order.
-/
import LayerPage.Build
import LayerPage.Proofs.Forest

namespace LayerPage

variable {α : Type} [Layer α]

-- ======================================================= layers as forests

/-- Whether a forest holds the children of a layer from an index on, each
of them with everything below it. -/
def Forest.ListsFrom (layer : α) : Nat → Forest α → Prop
  | index, .nil => index = Layer.childCount layer
  | index, .cons child below rest =>
      Layer.child? layer index = some child
        ∧ below.ListsFrom child 0 ∧ rest.ListsFrom layer (index + 1)

/-- Whether a forest is all that is below a layer: the children the layer
reports, in order, each with all that is below it. -/
def Forest.IsBelow (layer : α) (forest : Forest α) : Prop :=
  forest.ListsFrom layer 0

/-- A forest that lists the children from an index on has a root for each
of them. -/
theorem Forest.ListsFrom.length {layer : α} {index : Nat}
    {forest : Forest α} (h : forest.ListsFrom layer index) :
    index + forest.roots.length = Layer.childCount layer := by
  induction forest generalizing index with
  | nil => exact h
  | cons child below rest _ ihRest =>
      have hrest := ihRest h.2.2
      rw [Forest.roots, List.length_cons]
      omega

/-- The roots that are listed are children. -/
theorem Forest.ListsFrom.exists_child? {layer : α} {index : Nat}
    {forest : Forest α} (h : forest.ListsFrom layer index) {child : α}
    (hchild : child ∈ forest.roots) :
    ∃ i, i < Layer.childCount layer ∧ Layer.child? layer i = some child := by
  induction forest generalizing index with
  | nil => cases hchild
  | cons label below rest _ ihRest =>
      have hlength := h.length
      rw [Forest.roots, List.length_cons] at hlength
      rcases List.mem_cons.1 hchild with heq | hchild
      · exact ⟨index, by omega, heq ▸ h.1⟩
      · exact ihRest h.2.2 hchild

/-- Each label is listed with all that is below it. -/
theorem Forest.ListsFrom.isBelow_of_mem_trees {layer : α} {index : Nat}
    {forest : Forest α} (h : forest.ListsFrom layer index)
    {tree : α × Forest α} (htree : tree ∈ forest.trees) :
    tree.2.IsBelow tree.1 := by
  induction forest generalizing layer index with
  | nil => cases htree
  | cons label below rest ihBelow ihRest =>
      obtain ⟨-, hbelow, hrest⟩ := h
      rcases List.mem_cons.1 htree with heq | htree
      · rw [heq]
        exact hbelow
      · rcases List.mem_append.1 htree with htree | htree
        · exact ihBelow hbelow htree
        · exact ihRest hrest htree

/-- There is only one forest below a layer. -/
theorem Forest.ListsFrom.unique {layer : α} {index : Nat}
    {forest other : Forest α} (h : forest.ListsFrom layer index)
    (hother : other.ListsFrom layer index) : other = forest := by
  induction forest generalizing layer index other with
  | nil =>
      cases other with
      | nil => rfl
      | cons child below rest =>
          -- one list of children ends where the other one goes on
          have hend := h.length
          have hlonger := hother.length
          rw [Forest.roots, List.length_nil] at hend
          rw [Forest.roots, List.length_cons] at hlonger
          omega
  | cons child below rest ihBelow ihRest =>
      obtain ⟨hchild, hbelow, hrest⟩ := h
      cases other with
      | nil =>
          have hend := hother.length
          have hlonger := hrest.length
          rw [Forest.roots, List.length_nil] at hend
          omega
      | cons child' below' rest' =>
          obtain ⟨hchild', hbelow', hrest'⟩ := hother
          rw [hchild] at hchild'
          cases hchild'
          rw [ihBelow hbelow hbelow', ihRest hrest hrest']

/-- Only one forest lies below a layer. -/
theorem Forest.IsBelow.eq_iff {layer : α} {forest : Forest α}
    (h : forest.IsBelow layer) (other : Forest α) :
    other.IsBelow layer ↔ other = forest := by
  constructor
  · exact Forest.ListsFrom.unique h
  · rintro rfl
    exact h

namespace Construction

/-- The children of a layer at so many indices from one on, each with
what a function finds below it. -/
def unfoldChildren (below : α → Except Fault (Forest α)) (layer : α) :
    (count index : Nat) → Except Fault (Forest α)
  | 0, _ => .ok .nil
  | count + 1, index =>
    match Layer.child? layer index with
    | none =>
      .error (.missingChild (Layer.name layer) (Layer.childCount layer) index)
    | some child =>
      match below child with
      | .error fault => .error fault
      | .ok forest =>
        (unfoldChildren below layer count (index + 1)).map (.cons child forest)

/-- All layers below a layer, which together with it may take up to the
given number of levels. -/
def unfold : (levels : Nat) → α → Except Fault (Forest α)
  | 0, layer => .error (.tooDeep (Layer.name layer) maxDepth)
  | levels + 1, layer =>
    unfoldChildren (unfold levels) layer (Layer.childCount layer) 0

/-- A successful unfolding from an index on lists the children. -/
theorem listsFrom_of_unfoldChildren {below : α → Except Fault (Forest α)}
    (hbelow : ∀ child forest, below child = .ok forest →
      forest.IsBelow child) {layer : α} :
    ∀ {count index : Nat} {forest : Forest α},
      index + count = Layer.childCount layer →
      unfoldChildren below layer count index = .ok forest →
      forest.ListsFrom layer index := by
  intro count
  induction count with
  | zero =>
      intro index forest hcount h
      cases h
      exact hcount
  | succ count ih =>
      intro index forest hcount h
      rw [unfoldChildren] at h
      cases hchild : Layer.child? layer index with
      | none => rw [hchild] at h; cases h
      | some child =>
          rw [hchild] at h
          simp only at h
          cases hb : below child with
          | error fault => rw [hb] at h; cases h
          | ok inner =>
              rw [hb] at h
              simp only at h
              cases hrest : unfoldChildren below layer count (index + 1) with
              | error fault => rw [hrest] at h; cases h
              | ok rest =>
                  rw [hrest] at h
                  cases h
                  exact ⟨hchild, hbelow child inner hb,
                    ih (by omega) hrest⟩

/-- What unfolding a layer gives lies below it. -/
theorem isBelow_of_unfold {levels : Nat} {layer : α} {forest : Forest α}
    (h : unfold levels layer = .ok forest) : forest.IsBelow layer := by
  induction levels generalizing layer forest with
  | zero => cases h
  | succ levels ih =>
      exact listsFrom_of_unfoldChildren (fun child inner hb => ih hb)
        (Nat.zero_add _) h

-- ================================================================ planting

/-- The identifier a layer's name gives it. -/
def identifierOf (layer : α) : String :=
  (readName layer).1.identifier

/-- Whether a child's element is merged into that of its parent. -/
def mergePair (folder child : α) : Bool :=
  absorbs folder (identifierOf folder) child (identifierOf child)

/-- Add the element of a layer alone, with what its name gives rise to. -/
def addOwn (registry : MetadataRegistry α) (layer : α)
    (c : Construction α) : Construction α × ElementId :=
  let (name, diagnostics) := readName layer
  addElement registry layer name
    { c with diagnostics := c.diagnostics ++ diagnostics }

/-- Attach the finished element of a child, or merge it. -/
def adopt (folder child : α) (id childId : ElementId)
    (c : Construction α) : Construction α :=
  let tree := c.tree.appendChild id childId
  { c with
    tree := if mergePair folder child then tree.merge id childId else tree }

/-- Link the children of an element. -/
def link (id : ElementId) (c : Construction α) : Construction α :=
  { c with tree := c.tree.linkSiblings id }

/-- Add the elements of a forest below the element of a layer. -/
def grow (registry : MetadataRegistry α) (folder : α) (id : ElementId) :
    Forest α → Construction α → Construction α
  | .nil, c => c
  | .cons child below rest, c =>
      let added := addOwn registry child c
      let grown := link added.2 (grow registry child added.2 below added.1)
      grow registry folder id rest (adopt folder child id added.2 grown)

/-- Add the element of a layer with those of the forest below it. -/
def plant (registry : MetadataRegistry α) (layer : α) (below : Forest α)
    (c : Construction α) : Construction α × ElementId :=
  let added := addOwn registry layer c
  (link added.2 (grow registry layer added.2 below added.1), added.2)

theorem grow_cons (registry : MetadataRegistry α) (folder child : α)
    (id : ElementId) (below rest : Forest α) (c : Construction α) :
    grow registry folder id (.cons child below rest) c
      = grow registry folder id rest
          (adopt folder child id (plant registry child below c).2
            (plant registry child below c).1) := rfl

/-- What building a layer answers, in terms of what is below it. -/
def answer (registry : MetadataRegistry α) (layer : α)
    (c : Construction α) (below : Forest α) :
    Construction α × ElementId × String :=
  ((plant registry layer below c).1, (plant registry layer below c).2,
    identifierOf layer)

/-- Adding the children of a layer is unfolding them and growing the
forest, if that holds of each child alone. -/
theorem addChildren_eq {registry : MetadataRegistry α}
    {add : α → Construction α → Except Fault (Construction α × ElementId × String)}
    {below : α → Except Fault (Forest α)}
    (hadd : ∀ child c,
      add child c = (below child).map (answer registry child c))
    (layer : α) (id : ElementId) :
    ∀ (count index : Nat) (c : Construction α),
      addChildren add layer (identifierOf layer) id count index c
        = (unfoldChildren below layer count index).map
            (grow registry layer id · c) := by
  intro count
  induction count with
  | zero => intro index c; rfl
  | succ count ih =>
      intro index c
      rw [addChildren, unfoldChildren]
      cases Layer.child? layer index with
      | none => rfl
      | some child =>
          simp only
          rw [hadd]
          cases below child with
          | error fault => rfl
          | ok inner =>
              show addChildren add layer (identifierOf layer) id count
                  (index + 1) (adopt layer child id
                    (plant registry child inner c).2
                    (plant registry child inner c).1) = _
              rw [ih]
              cases unfoldChildren below layer count (index + 1) with
              | error fault => rfl
              | ok rest => rfl

/-- Adding a layer unfolds it and then plants what was found, so the two
can be reasoned about apart. -/
theorem addLayer_eq (registry : MetadataRegistry α) (levels : Nat)
    (layer : α) (c : Construction α) :
    addLayer registry levels layer c
      = (unfold levels layer).map (answer registry layer c) := by
  induction levels generalizing layer c with
  | zero => rfl
  | succ levels ih =>
      have hchildren := addChildren_eq (fun child c => ih child c) layer
        (addOwn registry layer c).2 (Layer.childCount layer) 0
        (addOwn registry layer c).1
      rw [unfold]
      unfold addLayer
      unfold addOwn identifierOf at hchildren
      simp only at hchildren ⊢
      rw [hchildren]
      cases unfoldChildren (unfold levels) layer (Layer.childCount layer) 0 with
      | error fault => rfl
      | ok forest => rfl

/-- A tree that was built is the planted forest of what is below its
layer. -/
theorem build_eq_ok {registry : MetadataRegistry α} {root : α}
    {built : BuiltTree α} (h : BuiltTree.build registry root = .ok built) :
    ∃ below : Forest α, below.IsBelow root
      ∧ built.toConstruction = (plant registry root below {}).1
      ∧ built.root = (plant registry root below {}).2 := by
  unfold BuiltTree.build at h
  rw [addLayer_eq] at h
  cases hu : unfold (maxDepth + 1) root with
  | error fault => rw [hu] at h; cases h
  | ok below =>
      rw [hu] at h
      cases h
      exact ⟨below, isBelow_of_unfold hu, rfl, rfl⟩

end Construction

end LayerPage
