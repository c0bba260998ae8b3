/-
The ways through a tree on which its markup is written. An element is
written if a way leads down to it from the root on which no tag is empty,
and its opening tag is then in the markup (`exists_opening`).

# Levels

Markup is written down to as many levels as there are elements, whatever
the links of the tree are. That is always enough: a way that comes to an
element twice can be cut short (`Route.exists_nodup`), and a way that does
not has no more elements than the tree (`Route.length_le`).
-/
import LayerPage.Proofs.Element.Arena
import LayerPage.Proofs.Markup.Visible
import Mathlib.Data.List.Perm.Subperm

namespace LayerPage

variable {α : Type}

namespace ElementTree

-- ================================================================= ways

/-- A way from the root to an element through written ones. The list has
those above the element, from its parent up. -/
inductive Route (tree : ElementTree α) (root : ElementId) :
    List ElementId → ElementId → Prop
  | start {e : Element α} :
      tree.get? root = some e → e.tag ≠ "" → Route tree root [] root
  | step {above : List ElementId} {p id : ElementId}
      {parent e : Element α} :
      Route tree root above p → tree.get? p = some parent →
      id ∈ parent.children → tree.get? id = some e → e.tag ≠ "" →
      Route tree root (p :: above) id

variable {tree : ElementTree α} {root id : ElementId}
  {above : List ElementId}

/-- The element at the end of a way is there, and has a tag. -/
theorem Route.get? (h : tree.Route root above id) :
    ∃ e, tree.get? id = some e ∧ e.tag ≠ "" := by
  cases h with
  | start hget htag => exact ⟨_, hget, htag⟩
  | step _ _ _ hget htag => exact ⟨_, hget, htag⟩

/-- A way leads to each of the elements on it. -/
theorem Route.of_append {front rest : List ElementId} {p : ElementId}
    (h : tree.Route root (front ++ p :: rest) id) :
    tree.Route root rest p := by
  induction front generalizing id with
  | nil => cases h with | step hup => exact hup
  | cons q front ih => cases h with | step hup => exact ih hup

/-- There is a way to an element that leads through no element twice, if
there is one at all. -/
theorem Route.exists_nodup (h : tree.Route root above id) :
    ∃ above', tree.Route root above' id ∧ (id :: above').Nodup := by
  induction h with
  | start hget htag => exact ⟨[], .start hget htag, by simp⟩
  | @step _ p id _ _ _ hparent hchild hget htag ih =>
      obtain ⟨above, hup, hnodup⟩ := ih
      by_cases hmem : id ∈ p :: above
      · obtain ⟨front, rest, hsplit⟩ := List.append_of_mem hmem
        have hway : tree.Route root (p :: above) id :=
          .step hup hparent hchild hget htag
        rw [hsplit] at hway hnodup
        exact ⟨rest, hway.of_append,
          hnodup.sublist (List.sublist_append_right _ _)⟩
      · exact ⟨p :: above, .step hup hparent hchild hget htag,
          List.nodup_cons.2 ⟨hmem, hnodup⟩⟩

/-- A way that meets no element twice is shorter than the tree. -/
theorem Route.length_lt (h : tree.Route root above id)
    (hnodup : (id :: above).Nodup) : above.length < tree.size := by
  have hsub : id :: above ⊆ tree.ids := by
    intro i hi
    rw [mem_ids_iff, ← get?_isSome_iff]
    rcases List.mem_cons.1 hi with rfl | hi
    · obtain ⟨e, hget, -⟩ := h.get?
      exact ⟨e, hget⟩
    · obtain ⟨front, rest, rfl⟩ := List.append_of_mem hi
      obtain ⟨e, hget, -⟩ := h.of_append.get?
      exact ⟨e, hget⟩
  have hle := (List.subperm_of_subset hnodup hsub).length_le
  rwa [ids, List.length_map, List.length_range] at hle

-- =============================================================== writing

/-- An element which is written out stands around what its children write,
one level further down. -/
theorem markupWithin?_of_get? {e : Element α}
    (hget : tree.get? id = some e) (htag : e.tag ≠ "") (levels : Nat) :
    tree.markupWithin? (levels + 1) id
      = some (.element e.head.tag e.head.attributes
        (e.children.reverse.filterMap (tree.markupWithin? levels))) := by
  rw [markupWithin?, hget]
  exact if_neg (mt String.isEmpty_iff.1 htag)

end ElementTree

namespace Markup

/-- What is written of an element begins with its opening tag. -/
theorem exists_render_opening (remark : Remark) (level : Nat) (head : Head)
    (children : List Markup) :
    ∃ rest, render remark level (.element head.tag head.attributes children)
      = head.opening ++ rest := by
  refine ⟨expand remark.before head.tag head.attributes ++ "\n"
    ++ renderAll remark (level + 1) children
    ++ indent level ++ "</" ++ head.tag ++ ">"
    ++ expand remark.after head.tag head.attributes ++ "\n", ?_⟩
  rw [render, Head.opening]
  simp only [String.append_assoc]

/-- What is written of an element has what is written of each of its
children in it. -/
theorem exists_render_of_mem (remark : Remark) (level : Nat) (head : Head)
    {child : Markup} {children : List Markup} (h : child ∈ children) :
    ∃ before after,
      render remark level (.element head.tag head.attributes children)
        = before ++ render remark (level + 1) child ++ after := by
  obtain ⟨first, later, rfl⟩ := List.append_of_mem h
  refine ⟨head.opening ++ expand remark.before head.tag head.attributes
    ++ "\n" ++ renderAll remark (level + 1) first ++ indent (level + 1),
    renderAll remark (level + 1) later
      ++ indent level ++ "</" ++ head.tag ++ ">"
      ++ expand remark.after head.tag head.attributes ++ "\n", ?_⟩
  rw [render, renderAll_append, renderAll, Head.opening]
  simp only [String.append_assoc]

end Markup

-- ============================================================= all of it

/-- With enough levels, what is written at the end of a way is a part of
what is written at the root. -/
theorem ElementTree.Route.exists_render {tree : ElementTree α}
    {root id : ElementId} {above : List ElementId}
    (h : tree.Route root above id) (remark : Markup.Remark)
    (levels : Nat) :
    ∃ whole part before after level,
      tree.markupWithin? (levels + above.length + 1) root = some whole
        ∧ tree.markupWithin? (levels + 1) id = some part
        ∧ whole.render remark 0
          = before ++ part.render remark level ++ after := by
  induction h generalizing levels with
  | start hget htag =>
      have hroot := markupWithin?_of_get? hget htag levels
      refine ⟨_, _, "", "", 0, hroot, hroot, ?_⟩
      rw [String.empty_append, String.append_empty]
  | @step above p id parent _ hup hparent hchild hget htag ih =>
      obtain ⟨whole, upper, before, after, level, hroot, hupper, hrender⟩ :=
        ih (levels + 1)
      have hpart := markupWithin?_of_get? hget htag levels
      obtain ⟨e, hget', htagged⟩ := hup.get?
      obtain rfl : parent = e := by
        rw [hparent] at hget'
        exact Option.some_inj.1 hget'
      rw [markupWithin?_of_get? hparent htagged, Option.some_inj] at hupper
      -- what a parent writes holds what its child writes
      obtain ⟨first, last, hwithin⟩ := Markup.exists_render_of_mem remark
        level parent.head
        (List.mem_filterMap.2 ⟨id, List.mem_reverse.2 hchild, hpart⟩)
      refine ⟨whole, _, before ++ first, last ++ after, level + 1, ?_,
        hpart, ?_⟩
      · rw [← hroot, List.length_cons]
        congr 1
        omega
      · rw [hrender, ← hupper, hwithin]
        simp only [String.append_assoc]

/-- The opening tag of an element that a way leads to is in the markup of
the page. -/
theorem Page.exists_opening {page : Page α} {id : ElementId}
    {above : List ElementId}
    (h : page.tree.Route page.root above id) {e : Element α}
    (hget : page.tree.get? id = some e) :
    ∃ before after,
      page.body = before ++ e.head.opening ++ after := by
  obtain ⟨above', hway, hnodup⟩ := h.exists_nodup
  have hlt := hway.length_lt hnodup
  obtain ⟨e', hget', htag⟩ := hway.get?
  obtain rfl : e = e' := by
    rw [hget] at hget'
    exact Option.some_inj.1 hget'
  obtain ⟨whole, part, before, after, level, hroot, hpart, hrender⟩ :=
    hway.exists_render page.remark (page.tree.size - (above'.length + 1))
  have hlevels : page.tree.size - (above'.length + 1) + above'.length + 1
      = page.tree.size := by
    omega
  rw [hlevels] at hroot
  rw [ElementTree.markupWithin?_of_get? hget htag, Option.some_inj]
    at hpart
  obtain ⟨rest, hopening⟩ := Markup.exists_render_opening page.remark level
    e.head _
  refine ⟨before, rest ++ after, ?_⟩
  rw [Page.body, ElementTree.markup?, hroot]
  show whole.render page.remark 0 = _
  rw [hrender, ← hpart, hopening]
  simp only [String.append_assoc]

end LayerPage
