/-
Which declarations of a built tree were written by hand. The names of an
element's layers pin properties: the name of the layer it was made from,
then the names of the layers merged into it (`lineage`). Of several names
that pin one property the last one counts (`pin?_elementOf`), and before
layout nothing but pins is declared (`handWritten_elementOf`).
-/
import LayerPage.Proofs.Build.Reference

namespace LayerPage

variable {α : Type} [Layer α]

/-- The value that the name of a layer pins a property to; nothing if the
name cannot be read. -/
def namedPin? (layer : α) (property : String) : Option String :=
  (LayerName.parse (Layer.name layer)).toOption.bind
    (·.entries.get? ("css:" ++ property))

/-- The pin of a property that counts among several layers: that of the
last one whose name has one. -/
def lastPin? (layers : List α) (property : String) : Option String :=
  layers.reverse.findSome? (namedPin? · property)

/-- The layers of the element that a layer becomes, given what is below
it: the layer itself, then the children merged into it, in order. -/
def lineage (layer : α) (below : Forest α) : List α :=
  layer :: below.roots.filter (Reference.Contracts layer ·)

namespace Construction

-- ========================================================= by the names

/-- The element of a layer is pinned to what the name of the layer says. -/
theorem pin?_own (layer : α) {k : String} (hk : k ≠ "") :
    (own Metadata.builtin layer).style.pin? k = namedPin? layer k := by
  have hpins : (Reference.ownNode layer).pins = SortedMap.ofList
      (Metadata.styleEntries (Reference.nameOf layer).entries) := rfl
  rw [(Reference.ownNode_describes layer).style, Reference.Node.rule, hpins,
    StyleRule.pinAll_ofList, StyleRule.pin?_pinAll,
    Metadata.lookup_reverse_styleEntries _ hk]
  unfold namedPin? Reference.nameOf
  cases LayerName.parse (Layer.name layer) with
  | error fault => rfl
  | ok name => exact Option.or_none

/-- A merged layer's pins count before those that are there. -/
theorem pin?_absorbAll {k : String} (hk : k ≠ "") (absorbed : List α)
    (e : Element α) :
    (absorbAll Metadata.builtin absorbed e).style.pin? k
      = (lastPin? absorbed k).or (e.style.pin? k) := by
  unfold lastPin?
  induction absorbed generalizing e with
  | nil => rfl
  | cons layer rest ih =>
      have hstep : (e.takeOver (own Metadata.builtin layer)).style.pin? k
          = (namedPin? layer k).or (e.style.pin? k) := by
        show (e.style.pinAll _).pin? k = _
        rw [StyleRule.pin?_pinAll, StyleRule.lookup_reverse_pinned,
          pin?_own layer hk]
      show (absorbAll Metadata.builtin rest (e.takeOver _)).style.pin? k = _
      rw [ih, hstep, List.reverse_cons, List.findSome?_append,
        List.findSome?_singleton, Option.or_assoc]

/-- The pins of an element are those of its layers. -/
theorem pin?_elementOf (o : Origin α) {k : String} (hk : k ≠ "") :
    (elementOf Metadata.builtin o).style.pin? k
      = lastPin? (o.layer :: o.absorbed) k := by
  rw [elementOf, pin?_absorbAll hk, pin?_own o.layer hk]
  unfold lastPin?
  rw [List.reverse_cons, List.findSome?_append, List.findSome?_singleton]

/-- The tag of an element is that of the layer it was made from. -/
theorem tag_elementOf (o : Origin α) :
    (elementOf Metadata.builtin o).tag = (Reference.nameOf o.layer).tag := by
  rw [elementOf, (absorbAll_links ..).1,
    (own_links Metadata.decorates_builtin o.layer).1, Reference.readName_fst]

/-- Building declares nothing but pins. -/
theorem handWritten_elementOf (o : Origin α) :
    (elementOf Metadata.builtin o).style.HandWritten := by
  unfold elementOf
  have hown : (own Metadata.builtin o.layer).style.HandWritten := by
    rw [(Reference.ownNode_describes o.layer).style]
    exact (StyleRule.handWritten_of_isEmpty rfl).pinAll _
  generalize own Metadata.builtin o.layer = e at hown
  induction o.absorbed generalizing e with
  | nil => exact hown
  | cons layer rest ih => exact ih _ (hown.pinAll _)

-- ======================================================== by the outline

/-- The lineage of a layer is the layer and the children absorbed by it, in
order. -/
theorem lineage_eq (layer : α) (below : Forest α) :
    lineage layer below = layer :: absorbedBy layer below := by
  unfold lineage absorbedBy
  congr 1
  apply List.filter_congr
  intro child _
  rw [Bool.eq_iff_iff, decide_eq_true_iff, Reference.mergePair_iff]

/-- An element was made from the layer whose number it has, and has the
lineage of that layer. -/
theorem tree_of_mem_outline {folder : α} {n : Nat} {forest : Forest α}
    {o : Origin α} (ho : o ∈ (outline folder n forest).labels) :
    ∃ i layer below, o.id.index = n + i
      ∧ forest.trees[i]? = some (layer, below)
      ∧ o.layer :: o.absorbed = lineage layer below := by
  induction forest generalizing folder n with
  | nil => cases ho
  | cons child below rest ihBelow ihRest =>
      -- what is below the child is in the outline whether it is merged or not
      have hbelow : o ∈ (outline child (n + 1) below).labels →
          ∃ i layer inside, o.id.index = n + i
            ∧ (Forest.cons child below rest).trees[i]?
              = some (layer, inside)
            ∧ o.layer :: o.absorbed = lineage layer inside := by
        intro ho
        obtain ⟨i, layer, inside, hi, htree, hlineage⟩ := ihBelow ho
        refine ⟨i + 1, layer, inside, by omega, ?_, hlineage⟩
        rw [Forest.trees, List.getElem?_cons_succ, List.getElem?_append_left]
        · exact htree
        · exact (List.getElem?_eq_some_iff.1 htree).1
      rw [outline_cons, Forest.labels_append] at ho
      rcases List.mem_append.1 ho with ho | ho
      · unfold outlineOf at ho
        split at ho
        · exact hbelow ho
        · rw [Forest.labels] at ho
          rcases List.mem_cons.1 ho with rfl | ho
          · exact ⟨0, child, below, rfl, rfl, (lineage_eq ..).symm⟩
          · rcases List.mem_append.1 ho with ho | ho
            · exact hbelow ho
            · cases ho
      · obtain ⟨i, layer, inside, hi, htree, hlineage⟩ := ihRest ho
        refine ⟨below.size + i + 1, layer, inside, by omega, ?_, hlineage⟩
        have hback : below.size + i - below.size = i := by omega
        rw [Forest.trees, List.getElem?_cons_succ,
          List.getElem?_append_right, Forest.length_trees, hback]
        · exact htree
        · rw [Forest.length_trees]
          omega

/-- What an element of the outline has absorbed is the lineage of its layer
in the tree of layers. -/
theorem tree_of_mem_rootOutline {root : α} {below : Forest α}
    {o : Origin α} (ho : o ∈ (rootOutline root below).labels) :
    ∃ layer inside,
      (Forest.cons root below .nil).trees[o.id.index]?
          = some (layer, inside)
        ∧ o.layer :: o.absorbed = lineage layer inside := by
  rw [rootOutline, Forest.labels] at ho
  rcases List.mem_cons.1 ho with rfl | ho
  · exact ⟨root, below, rfl, (lineage_eq ..).symm⟩
  · rcases List.mem_append.1 ho with ho | ho
    · obtain ⟨i, layer, inside, hi, htree, hlineage⟩ :=
        tree_of_mem_outline ho
      have hindex : o.id.index = i + 1 := by omega
      refine ⟨layer, inside, ?_, hlineage⟩
      rw [hindex, Forest.trees, List.getElem?_cons_succ,
        List.getElem?_append_left]
      · exact htree
      · exact (List.getElem?_eq_some_iff.1 htree).1
    · cases ho

namespace BuiltFrom

variable {root : α} {below : Forest α} {built : BuiltTree α}

/-- Every attached element has an origin, and is what that becomes, with
links. -/
theorem origin_links (h : BuiltFrom Metadata.builtin root below built)
    {id : ElementId} (hid : built.tree.isAttached id = true) :
    ∃ o ∈ (rootOutline root below).labels, o.id = id
      ∧ ∃ parent? children siblings, built.tree.get? id
        = some { elementOf Metadata.builtin o with
            parent?, children, siblings } := by
  obtain ⟨e, hget, hattached⟩ := ElementTree.isAttached_iff.1 hid
  have hmem := (h.mem_outline_iff Metadata.decorates_builtin hget).2 hattached
  obtain ⟨o, ho, rfl⟩ := List.mem_map.1 hmem
  exact ⟨o, ho, rfl, h.grown.element ho⟩

/-- Every attached element has an origin, whose rule it has. -/
theorem origin (h : BuiltFrom Metadata.builtin root below built)
    {id : ElementId} (hid : built.tree.isAttached id = true) :
    ∃ o ∈ (rootOutline root below).labels, o.id = id
      ∧ ∃ e, built.tree.get? id = some e
        ∧ e.style = (elementOf Metadata.builtin o).style := by
  obtain ⟨o, ho, hindex, parent?, children, siblings, hget⟩ :=
    h.origin_links hid
  exact ⟨o, ho, hindex, _, hget, rfl⟩

/-- Nothing has been inferred for an attached element when the tree is
built. -/
theorem handWritten (h : BuiltFrom Metadata.builtin root below built)
    {id : ElementId} {e : Element α} (hget : built.tree.get? id = some e)
    (hattached : e.detached = false) : e.style.HandWritten := by
  obtain ⟨o, -, -, e', hget', hstyle⟩ :=
    h.origin (ElementTree.isAttached_iff.2 ⟨e, hget, hattached⟩)
  rw [hget] at hget'
  cases hget'
  rw [hstyle]
  exact handWritten_elementOf o

end BuiltFrom

end Construction

end LayerPage
