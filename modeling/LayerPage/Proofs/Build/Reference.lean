/-
What the tree of a page is, said without an arena: a recursion on the
layers. A layer becomes a node, and its children become the nodes below
it, except that a child which contracts with its folder leaves its own
children in its place and lays its attributes, its pins and its geometry
over those of the folder.

`Shows` compares a forest of nodes with the elements at given indices,
links included, and `build_shows_reference` is the agreement of the two:
same nodes, same order, same nesting, and as many detached elements as
there were contractions.
-/
import LayerPage.Proofs.Build.Invariant
import LayerPage.Proofs.LayerName

namespace LayerPage

variable {α : Type}

namespace Reference

-- ================================================================ nodes

/-- A node of the page. -/
structure Node (α : Type) where
  tag : String
  identifier : String
  attributes : SortedMap String
  pins : SortedMap String
  layer : α

/-- A node under another one, which wins where both have a value. -/
def Node.overlay (lower upper : Node α) : Node α :=
  { lower with
    attributes := lower.attributes.overlay upper.attributes
    pins := lower.pins.overlay upper.pins
    layer := upper.layer }

/-- The rule of a node: its identifier, or else its tag, selects it, and
it declares nothing but its pins. -/
def Node.rule (node : Node α) : StyleRule :=
  StyleRule.pinAll
    { selector := if node.identifier.isEmpty then node.tag
        else "#" ++ node.identifier }
    node.pins.toList

/-- Whether an element is a node, its place in the tree apart. -/
structure Node.Describes (node : Node α) (e : Element α) : Prop where
  tag : e.tag = node.tag
  attributes : e.attributes = node.attributes
  layer : e.layer = node.layer
  style : e.style = node.rule
  attached : e.detached = false

/-- Whether the elements at some indices are the roots of a forest of
nodes, with the given parent, and with the rest of the forest below
them. -/
def Shows (tree : ElementTree α) :
    Option ElementId → Forest (Node α) → List ElementId → Prop
  | _, .nil, ids => ids = []
  | parent?, .cons node below rest, ids =>
      ∃ id e later, ids = id :: later ∧ tree.get? id = some e
        ∧ e.parent? = parent? ∧ node.Describes e
        ∧ Shows tree (some id) below e.children
        ∧ Shows tree parent? rest later

/-- Two forests shown side by side under one parent are one forest shown
there. -/
theorem shows_append {tree : ElementTree α} {parent? : Option ElementId}
    {forest other : Forest (Node α)} {ids others : List ElementId}
    (h : Shows tree parent? forest ids)
    (hother : Shows tree parent? other others) :
    Shows tree parent? (forest ++ other) (ids ++ others) := by
  induction forest generalizing ids with
  | nil =>
      cases h
      exact hother
  | cons node below rest _ ihRest =>
      obtain ⟨id, e, later, rfl, hget, hparent, hnode, hbelow, hrest⟩ := h
      rw [Forest.cons_append]
      exact ⟨id, e, later ++ others, rfl, hget, hparent, hnode, hbelow,
        ihRest hrest⟩

/-- Laying a node over another is what absorbing an element does to the
element, so the two stay in step while a folder takes its children over. -/
theorem overlay_describes {node upper : Node α} {e absorbed : Element α}
    (hnode : node.Describes e) (hupper : upper.Describes absorbed) :
    (node.overlay upper).Describes (e.takeOver absorbed) := by
  refine ⟨hnode.tag, ?_, hupper.layer, ?_, hnode.attached⟩
  · show e.attributes.overlay absorbed.attributes
      = node.attributes.overlay upper.attributes
    rw [hnode.attributes, hupper.attributes]
  · show e.style.pinAll absorbed.style.pinned = _
    rw [hnode.style, hupper.style]
    exact StyleRule.pinAll_overlay ..

-- ======================================================== from the layers

variable [Layer α]

/-- What a layer is called; nothing if its name cannot be read. -/
def nameOf (layer : α) : LayerName :=
  (LayerName.parse (Layer.name layer)).toOption.getD .blank

/-- The name of a layer is plain, also where it cannot be read and the
blank name stands for it. -/
theorem nameOf_isPlain (layer : α) : (nameOf layer).IsPlain := by
  unfold nameOf
  cases hparse : LayerName.parse (Layer.name layer) with
  | error fault => exact LayerName.isPlain_blank
  | ok name => exact LayerName.isPlain_of_parse hparse

/-- Whether a child contracts with the layer it lies in: a normal layer
in a folder of the same name. -/
def Contracts (folder child : α) : Prop :=
  Layer.kind folder = .folder ∧ Layer.kind child = .normal
    ∧ (nameOf folder).identifier = (nameOf child).identifier
    ∧ (nameOf folder).identifier ≠ ""

instance (folder child : α) : Decidable (Contracts folder child) :=
  inferInstanceAs (Decidable (_ ∧ _ ∧ _ ∧ _))

/-- The node of a layer without what lies below it: its identifier is an
attribute, which an entry may replace. -/
def ownNode (layer : α) : Node α :=
  let name := nameOf layer
  { tag := name.tag
    identifier := name.identifier
    attributes :=
      (if name.identifier.isEmpty then ∅
        else SortedMap.ofList [("id", name.identifier)]).insertAll
          (Metadata.attributeEntries name.entries)
    pins := SortedMap.ofList (Metadata.styleEntries name.entries)
    layer }

/-- A node of a layer, overlaid by those of its contracted children. -/
def overlaid (layer : α) : Node α → Forest α → Node α
  | node, .nil => node
  | node, .cons child below rest =>
      overlaid layer
        (if Contracts layer child then
          node.overlay (overlaid child (ownNode child) below) else node)
        rest

/-- The node of a layer with the given forest below it. -/
def nodeOf (layer : α) (below : Forest α) : Node α :=
  overlaid layer (ownNode layer) below

/-- The nodes below the node of a layer. -/
def childNodes (layer : α) : Forest α → Forest (Node α)
  | .nil => .nil
  | .cons child below rest =>
      (if Contracts layer child then childNodes child below
        else .cons (nodeOf child below) (childNodes child below) .nil)
        ++ childNodes layer rest

/-- The tree of a page. -/
def pageOf (root : α) (below : Forest α) : Forest (Node α) :=
  .cons (nodeOf root below) (childNodes root below) .nil

/-- How many layers of a forest contract with the layer they lie in. -/
def contractions (layer : α) : Forest α → Nat
  | .nil => 0
  | .cons child below rest =>
      (if Contracts layer child then 1 else 0) + contractions child below
        + contractions layer rest

-- ================================================== nodes and elements

theorem readName_fst (layer : α) :
    (Construction.readName layer).1 = nameOf layer := by
  unfold Construction.readName nameOf
  cases LayerName.parse (Layer.name layer) with
  | error fault => rfl
  | ok name => rfl

/-- The builder merges a child exactly where the reference contracts it. -/
theorem mergePair_iff {folder child : α} :
    Construction.mergePair folder child = true ↔ Contracts folder child := by
  unfold Construction.mergePair Construction.absorbs Contracts
    Construction.identifierOf
  rw [readName_fst, readName_fst]
  simp only [Bool.and_eq_true, beq_iff_eq, Bool.not_eq_true',
    String.isEmpty_eq_false_iff]
  constructor
  · rintro ⟨⟨⟨hfolder, hnormal⟩, hne⟩, heq⟩
    exact ⟨hfolder, hnormal, heq, hne⟩
  · rintro ⟨hfolder, hnormal, heq, hne⟩
    exact ⟨⟨⟨hfolder, hnormal⟩, hne⟩, heq⟩

/-- The element of a layer, before any child is absorbed, is the node of
that layer. -/
theorem ownNode_describes (layer : α) :
    (ownNode layer).Describes (Construction.own Metadata.builtin layer) := by
  unfold Construction.own
  rw [Metadata.apply_builtin, readName_fst]
  unfold Element.create
  refine ⟨?_, ?_, ?_, ?_, ?_⟩
  · split <;> rfl
  · show SortedMap.insertAll _ _ = SortedMap.insertAll _ _
    cases (nameOf layer).identifier.isEmpty with
    | true => rfl
    | false => rfl
  · split <;> rfl
  · show StyleRule.pinAll _ _ = StyleRule.pinAll _ _
    rw [ownNode, StyleRule.pinAll_ofList]
    cases (nameOf layer).identifier.isEmpty with
    | true => rfl
    | false => rfl
  · split <;> rfl

/-- A layer absorbs the children that contract with it, one after
another, and none of these has absorbed anything itself. -/
theorem overlaid_describes {layer : α} {node : Node α} {e : Element α}
    (hnode : node.Describes e) (below : Forest α) :
    (overlaid layer node below).Describes
      (Construction.absorbAll Metadata.builtin
        (Construction.absorbedBy layer below) e) := by
  induction below generalizing layer node e with
  | nil => exact hnode
  | cons child below rest ihBelow ihRest =>
      rw [overlaid, Construction.absorbedBy_cons,
        Construction.absorbAll_append]
      by_cases hpair : Construction.mergePair layer child = true
      · rw [if_pos hpair, if_pos (mergePair_iff.1 hpair)]
        have hchild : (overlaid child (ownNode child) below).Describes _ :=
          ihBelow (ownNode_describes child)
        rw [Construction.absorbedBy_of_mergePair hpair] at hchild
        exact ihRest (overlay_describes hnode hchild)
      · rw [if_neg hpair, if_neg (mt mergePair_iff.2 hpair)]
        exact ihRest hnode

/-- The element of a layer, with every child absorbed, is the node of that
layer with their nodes laid over it, in the same order. -/
theorem nodeOf_describes (layer : α) (below : Forest α) :
    (nodeOf layer below).Describes
      (Construction.absorbAll Metadata.builtin
        (Construction.absorbedBy layer below)
        (Construction.own Metadata.builtin layer)) :=
  overlaid_describes (ownNode_describes layer) below

/-- The elements of an outline show the nodes below the layer. -/
theorem shows_of_grown {tree : ElementTree α} (folder : α) (n : Nat)
    (forest : Forest α) {parent? : Option ElementId}
    {peers? : Option (List ElementId)}
    (h : Construction.Grown Metadata.builtin tree parent? peers?
      (Construction.outline folder n forest)) :
    Shows tree parent? (childNodes folder forest)
      (Construction.outline folder n forest).rootIds := by
  induction forest generalizing folder n parent? peers? with
  | nil => rfl
  | cons child below rest ihBelow ihRest =>
      rw [Construction.outline_cons, Construction.grown_append] at h
      rw [Construction.outline_cons, Forest.rootIds_append, childNodes]
      refine shows_append ?_ (ihRest folder _ h.2)
      have hchild := h.1
      unfold Construction.outlineOf at hchild ⊢
      by_cases hpair : Construction.mergePair folder child = true
      · rw [if_pos hpair] at hchild ⊢
        rw [if_pos (mergePair_iff.1 hpair)]
        exact ihBelow child _ hchild
      · rw [if_neg hpair] at hchild ⊢
        rw [if_neg (mt mergePair_iff.2 hpair)]
        obtain ⟨⟨siblings, hget, -⟩, hbelow, -⟩ := hchild
        obtain ⟨htag, hattributes, hlayer, hstyle, hattached⟩ :=
          nodeOf_describes child below
        exact ⟨⟨n⟩, _, [], rfl, hget, rfl,
          ⟨htag, hattributes, hlayer, hstyle, hattached⟩,
          ihBelow child _ hbelow, rfl⟩

-- ============================================================== counting

/-- Every layer either has an element in the outline or contracts. -/
theorem outline_size_add_contractions (folder : α) (n : Nat)
    (forest : Forest α) :
    (Construction.outline folder n forest).size
      + contractions folder forest = forest.size := by
  induction forest generalizing folder n with
  | nil => rfl
  | cons child below rest ihBelow ihRest =>
      have hbelow := ihBelow child (n + 1)
      have hrest := ihRest folder (n + 1 + below.size)
      rw [Construction.outline_cons, Forest.size_append, contractions,
        Forest.size]
      unfold Construction.outlineOf
      by_cases hpair : Construction.mergePair folder child = true
      · rw [if_pos hpair, if_pos (mergePair_iff.1 hpair)]
        omega
      · rw [if_neg hpair, if_neg (mt mergePair_iff.2 hpair)]
        simp only [Forest.size]
        omega

end Reference

open Reference

variable [Layer α]

-- ============================================================= agreement

/-- A tree built with the builtin handlers is the reference on the layers
below its root: the attached elements show its nodes, each layer has one
element, and each contraction leaves one of them detached. -/
theorem build_shows_reference {root : α} {built : BuiltTree α}
    (h : BuiltTree.build Metadata.builtin root = .ok built) :
    ∃ below : Forest α,
      (∀ other : Forest α, other.IsBelow root ↔ other = below)
      ∧ Shows built.tree none (pageOf root below) [built.root]
      ∧ built.tree.descendants built.root = built.tree.attached
      ∧ built.tree.size = below.size + 1
      ∧ built.tree.ids.countP (!built.tree.isAttached ·)
        = contractions root below := by
  obtain ⟨below, hbelow, hbuilt⟩ :=
    Construction.builtFrom Metadata.decorates_builtin h
  have hwell := hbuilt.wellFormed Metadata.decorates_builtin
  have hattached : built.tree.attached.length
      = (Construction.outline root 1 below).size + 1 := by
    rw [← hwell.descendants_root, hbuilt.descendants_root, Forest.ids,
      List.length_map, Forest.length_labels]
    rfl
  have hcount := outline_size_add_contractions root 1 below
  have hids : built.tree.ids.length = built.tree.size := by
    rw [ElementTree.ids, List.length_map, List.length_range]
  -- each element is attached or not, and the outline has the attached ones
  have hsplit := List.length_eq_countP_add_countP built.tree.isAttached
    (l := built.tree.ids)
  rw [hids, List.countP_eq_length_filter, ← ElementTree.attached] at hsplit
  simp only [decide_not, Bool.decide_eq_true] at hsplit
  refine ⟨below, hbelow.eq_iff, ?_, hwell.descendants_root, hbuilt.size, ?_⟩
  · obtain ⟨⟨siblings, hget, -⟩, hgrown, -⟩ := hbuilt.grown
    obtain ⟨htag, hattributes, hlayer, hstyle, hattached⟩ :=
      nodeOf_describes root below
    rw [hbuilt.root_id]
    exact ⟨⟨0⟩, _, [], rfl, hget, rfl,
      ⟨htag, hattributes, hlayer, hstyle, hattached⟩,
      shows_of_grown root 1 below hgrown, rfl⟩
  · have hsize := hbuilt.size
    omega

/-- On the sample page the folder contracts with two layers of its name,
and the second one is in front. -/
theorem samplePage_shows_reference :
    ∃ built, BuiltTree.build Metadata.builtin samplePage = .ok built
      ∧ ∃ below : Forest ManifestLayer,
        (∀ other : Forest ManifestLayer,
          other.IsBelow samplePage ↔ other = below)
        ∧ Shows built.tree none (pageOf samplePage below) [built.root]
        ∧ built.tree.descendants built.root = built.tree.attached
        ∧ built.tree.size = below.size + 1
        ∧ built.tree.ids.countP (!built.tree.isAttached ·)
          = contractions samplePage below := by
  obtain ⟨built, hbuilt⟩ : ∃ built,
    BuiltTree.build Metadata.builtin samplePage = .ok built := ⟨_, rfl⟩
  exact ⟨built, hbuilt, build_shows_reference hbuilt⟩

end LayerPage
