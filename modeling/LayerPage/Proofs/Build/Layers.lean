/-
The layers behind the elements of a tree. Building inserts elements for
layers it has found, and merging hands the layer of one element to another;
neither makes up a layer. So what is true of a layer and goes down from a
layer to its children is true of the layers behind all elements
(`build_madeOf`). Links and rules do not matter to it, and nothing is asked
of the tree in between.
-/
import LayerPage.Proofs.Build.Growth
import LayerPage.Proofs.Element.Restyled

namespace LayerPage

variable {α : Type} {P : α → Prop}

namespace ElementTree

/-- Whether the layers behind all elements are as they should be. -/
def MadeOf (P : α → Prop) (tree : ElementTree α) : Prop :=
  ∀ id e, tree.get? id = some e → P e.layer

/-- The empty tree is made of no layers at all. -/
theorem madeOf_empty : ({} : ElementTree α).MadeOf P := by
  intro id e hget
  cases hget

/-- Restyling does not change what a tree is made of. -/
theorem MadeOf.restyled {tree now : ElementTree α} (h : tree.MadeOf P)
    (hnow : tree.Restyled now) : now.MadeOf P := by
  intro id e hget
  obtain ⟨e', hget', hstep⟩ := hnow.of_get? hget
  rw [hstep.rule_only]
  exact h id e' hget'

/-- An element brings its layer. -/
theorem MadeOf.insert {tree : ElementTree α} (h : tree.MadeOf P)
    {e : Element α} (he : P e.layer) : (tree.insert e).1.MadeOf P := by
  intro id e' hget
  rw [get?_insert] at hget
  split at hget
  · cases hget
    exact he
  · exact h id e' hget

/-- A change that leaves layers alone, or exchanges them for others of the
kind, keeps a tree made of them. -/
theorem MadeOf.modify {tree : ElementTree α} (h : tree.MadeOf P)
    {f : Element α → Element α}
    (hf : ∀ e : Element α, P e.layer → P (f e).layer) (id : ElementId) :
    (tree.modify id f).MadeOf P := by
  intro i e hget
  rw [get?_modify] at hget
  split at hget
  · obtain ⟨e', hget', rfl⟩ := Option.map_eq_some_iff.1 hget
    exact hf e' (h i e' hget')
  · exact h i e hget

/-- Appending a child does not change what a tree is made of. -/
theorem MadeOf.appendChild {tree : ElementTree α} (h : tree.MadeOf P)
    (parent child : ElementId) :
    (tree.appendChild parent child).MadeOf P := by
  refine MadeOf.modify (MadeOf.modify h ?_ parent) ?_ child
  · exact fun _ he => he
  · exact fun _ he => he

/-- Appending children does not change what a tree is made of. -/
theorem MadeOf.foldl_appendChild {tree : ElementTree α}
    (h : tree.MadeOf P) (parent : ElementId) (children : List ElementId) :
    (children.foldl (fun tree child => tree.appendChild parent child)
      tree).MadeOf P := by
  induction children generalizing tree with
  | nil => exact h
  | cons child rest ih => exact ih (h.appendChild parent child)

/-- Detaching an element does not change what a tree is made of. -/
theorem MadeOf.detach {tree : ElementTree α} (h : tree.MadeOf P)
    (id : ElementId) : (tree.detach id).MadeOf P := by
  unfold ElementTree.detach
  refine MadeOf.modify ?_ ?_ id
  · split
    · refine MadeOf.modify h ?_ _
      exact fun _ he => he
    · exact h
  · exact fun _ he => he

/-- Linking siblings does not change what a tree is made of. -/
theorem MadeOf.linkSiblings {tree : ElementTree α} (h : tree.MadeOf P)
    (parent : ElementId) : (tree.linkSiblings parent).MadeOf P := by
  intro i e hget
  rw [get?_linkSiblings] at hget
  split at hget
  · obtain ⟨e', hget', rfl⟩ := Option.map_eq_some_iff.1 hget
    exact h i e' hget'
  · exact h i e hget

/-- Merging hands on the layer of an element that is there. -/
theorem MadeOf.merge {tree : ElementTree α} (h : tree.MadeOf P)
    (target child : ElementId) : (tree.merge target child).MadeOf P := by
  have hdetached := h.detach child
  unfold ElementTree.merge
  simp only
  split
  · exact hdetached
  · next absorbed hget =>
    have hlayer := hdetached child absorbed hget
    refine MadeOf.foldl_appendChild (MadeOf.modify
      (MadeOf.modify hdetached ?_ child) ?_ target) target _
    · exact fun _ he => he
    · exact fun _ _ => hlayer

end ElementTree

namespace Construction

variable [Layer α] {registry : MetadataRegistry α}

/-- The element of a layer is made of it, whatever its metadata. -/
theorem addOwn_madeOf (hreg : Metadata.Decorates registry) {layer : α}
    (hlayer : P layer) {c : Construction α} (h : c.tree.MadeOf P) :
    (addOwn registry layer c).1.tree.MadeOf P := by
  rw [addOwn_tree]
  apply h.insert
  rw [(own_links hreg layer).2.1]
  exact hlayer

/-- A merge takes its layer from one of the two elements. -/
theorem adopt_madeOf (folder child : α) (id childId : ElementId)
    {c : Construction α} (h : c.tree.MadeOf P) :
    (adopt folder child id childId c).tree.MadeOf P := by
  have happended := h.appendChild id childId
  unfold adopt
  simp only
  split
  · exact happended.merge id childId
  · exact happended

/-- Growing what a layer lists makes no other layers than those below
it. -/
theorem grow_madeOf (hreg : Metadata.Decorates registry)
    (hdown : ∀ {layer child : α} {i : Nat}, P layer →
      Layer.child? layer i = some child → P child)
    {folder : α} {id : ElementId} {index : Nat} {below : Forest α}
    (hlists : below.ListsFrom folder index) (hfolder : P folder)
    {c : Construction α} (h : c.tree.MadeOf P) :
    (grow registry folder id below c).tree.MadeOf P := by
  induction below generalizing folder id index c with
  | nil => exact h
  | cons child inside rest ihInside ihRest =>
      obtain ⟨hchild, hinside, hrest⟩ := hlists
      have hlayer := hdown hfolder hchild
      have hadded := addOwn_madeOf hreg hlayer h
      have hgrown : (grow registry child (addOwn registry child c).2 inside
          (addOwn registry child c).1).tree.MadeOf P :=
        ihInside hinside hlayer hadded
      exact ihRest hrest hfolder
        (adopt_madeOf folder child id _ (hgrown.linkSiblings _))

/-- Behind the elements of a tree are layers from the one that it was built
of. -/
theorem build_madeOf (hreg : Metadata.Decorates registry)
    (hdown : ∀ {layer child : α} {i : Nat}, P layer →
      Layer.child? layer i = some child → P child)
    {root : α} (hroot : P root) {built : BuiltTree α}
    (h : BuiltTree.build registry root = .ok built) :
    built.tree.MadeOf P := by
  obtain ⟨below, hbelow, hcons, -⟩ := build_eq_ok h
  rw [hcons]
  have hadded := addOwn_madeOf hreg hroot (c := {}) ElementTree.madeOf_empty
  exact (grow_madeOf hreg hdown hbelow hroot hadded).linkSiblings _

end Construction

end LayerPage
