/-
One rule for each element. A page lists its rules in the order in which
its elements were made, absorbed ones included, while the tree is walked
from the root through lists of children. Both give the same text
(`stylesheet_eq_join`): an absorbed element declares nothing, so its rule
is the empty text, and the elements that are left are walked in the order
of creation.

That an element below the root always has something to write does not rest
on what is inferred from its neighbours: its width is declared, by hand or
by its own visit.
-/
import Mathlib.Data.List.Nodup
import LayerPage.Proofs.Diagnostics
import LayerPage.Proofs.Layout.Position

namespace LayerPage

variable {α : Type}

-- ================================================================= texts

/-- Texts that are empty may be left out. -/
theorem Text.join_map_filter {β : Type} (f : β → String) (p : β → Bool)
    {l : List β} (h : ∀ x ∈ l, p x = false → f x = "") :
    String.join ((l.filter p).map f) = String.join (l.map f) := by
  induction l with
  | nil => rfl
  | cons x rest ih =>
      have hrest := ih fun y hy => h y (List.mem_cons_of_mem _ hy)
      rw [List.map_cons, String.join_cons, ← hrest]
      by_cases hx : p x = true
      · rw [List.filter_cons_of_pos hx, List.map_cons, String.join_cons]
      · rw [List.filter_cons_of_neg hx,
          h x List.mem_cons_self (Bool.eq_false_iff.2 hx),
          String.empty_append]

namespace Page

/-- The text of an element's rule. -/
def ruleText (page : Page α) (id : ElementId) : String :=
  ((page.tree.get? id).map (·.style.toCss)).getD ""

/-- The text for an element in the stylesheet is its rule. -/
theorem ruleText_of_get? {page : Page α} {id : ElementId} {e : Element α}
    (h : page.tree.get? id = some e) : page.ruleText id = e.style.toCss := by
  rw [ruleText, h]
  rfl

/-- The style sheet has the rules in its order, those with nothing to write
included. -/
theorem stylesheet_eq_join (page : Page α) :
    page.stylesheet
      = String.join (page.stylesheetOrder.map page.ruleText) := by
  have hunwritten : ∀ rule : StyleRule, rule.isWritten = false →
      rule.toCss = "" := fun rule => StyleRule.toCss_of_not_isWritten
  unfold stylesheet rules
  rw [Text.join_map_filter _ _ fun rule _ => hunwritten rule]
  induction page.stylesheetOrder with
  | nil => rfl
  | cons id rest ih =>
      rw [List.map_cons, String.join_cons, ← ih]
      cases hget : page.tree.get? id with
      | none =>
          rw [ruleText, hget, List.filterMap_cons_none (by rw [hget]; rfl)]
          exact String.empty_append.symm
      | some e =>
          rw [ruleText_of_get? hget,
            List.filterMap_cons_some (by rw [hget]; rfl), List.map_cons,
            String.join_cons]

/-- Whether the style sheet of a page has one rule for each element of its
tree. -/
structure HasRuleEach (page : Page α) : Prop where
  /-- It has the rules of the elements of the tree, in their order. -/
  sheet : page.stylesheet = String.join
    ((page.tree.descendants page.root).map page.ruleText)
  /-- Absorbed elements are not in the tree, and their rules are empty. -/
  absorbed : ∀ id e, page.tree.get? id = some e → e.detached = true →
    id ∉ page.tree.descendants page.root ∧ e.style.isEmpty = true
      ∧ page.ruleText id = ""
  /-- All others but the root have something to write, if they have a
  selector, and are in the tree once. -/
  written : ∀ id e, page.tree.get? id = some e → e.detached = false →
    id ≠ page.root → e.style.selector ≠ "" →
    (page.tree.descendants page.root).count id = 1
      ∧ page.ruleText id = e.style.toCss ∧ e.style.toCss ≠ ""

end Page

-- ============================================================== elements

variable [Layer α]

/-- Below the root of a tree that follows its geometry, every element has a
width. -/
theorem ElementTree.FollowsGeometry.isSome_width {tree : ElementTree α}
    {root : ElementId} (h : tree.FollowsGeometry root) {id : ElementId}
    {e : Element α} (hget : tree.get? id = some e)
    (hattached : e.detached = false) (hroot : id ≠ root) :
    (e.style.get? "width").isSome = true := by
  obtain ⟨p, _, hparent, -⟩ :=
    h.wellFormed.attached_child id e hget hattached hroot
  have hvalue : tree.valueOf? id "width" = e.style.get? "width" := by
    rw [valueOf?, hget, Option.bind_some]
  rw [← hvalue]
  cases hpin : tree.isPinned id "width" with
  | true => exact Layout.isSome_valueOf?_of_isPinned hpin
  | false =>
      have hid : tree.isAttached id = true :=
        isAttached_iff.2 ⟨e, hget, hattached⟩
      have hbelow : tree.parentId? id ≠ none := by
        rw [parentId?, hget, Option.bind_some, hparent]
        exact Option.some_ne_none p
      rw [h.value id "width" hid (by decide) hpin]
      show (Geometry.width? tree id).isSome = true
      rw [Geometry.width?, if_neg hbelow]
      rfl

/-- The style sheet of every page has one rule for each element. -/
theorem convert_hasRuleEach {source : LayerDocument α}
    {conversion : Conversion α}
    (h : Converter.convert {} source = .ok conversion) :
    conversion.page.HasRuleEach := by
  obtain ⟨body, below, built, hfrom⟩ := Conversion.exists_comesFrom h
  have hwell := hfrom.wellFormed
  have hempty : ∀ id e, conversion.page.tree.get? id = some e →
      e.detached = true → e.style.isEmpty = true :=
    fun id e hget hdetached =>
      (hwell.detached_empty id e hget hdetached).2.2.2
  -- an absorbed element declares nothing, so its rule has no text
  have hsilent : ∀ id e, conversion.page.tree.get? id = some e →
      e.detached = true → conversion.page.ruleText id = "" := by
    intro id e hget hdetached
    rw [Page.ruleText_of_get? hget]
    exact StyleRule.toCss_of_isEmpty (hempty id e hget hdetached)
  refine { sheet := ?_, absorbed := ?_, written := ?_ }
  · rw [Page.stylesheet_eq_join, hfrom.order_eq_ids, hwell.descendants_root,
      ElementTree.attached, Text.join_map_filter]
    intro id hid hfree
    obtain ⟨e, hget⟩ :=
      ElementTree.get?_isSome_iff.2 (ElementTree.mem_ids_iff.1 hid)
    rw [ElementTree.isAttached, hget] at hfree
    exact hsilent id e hget (by simpa using hfree)
  · intro id e hget hdetached
    refine ⟨?_, hempty id e hget hdetached, hsilent id e hget hdetached⟩
    rw [hwell.descendants_root, ElementTree.mem_attached_iff]
    intro hattached
    obtain ⟨e', hget', hfalse⟩ := hattached
    rw [hget] at hget'
    cases hget'
    rw [hdetached] at hfalse
    cases hfalse
  · intro id e hget hattached hroot hselector
    -- a width is declared, so the rule is written
    have hwidth := hfrom.followsGeometry.isSome_width hget hattached hroot
    refine ⟨?_, Page.ruleText_of_get? hget, ?_⟩
    · apply List.count_eq_one_of_mem
      · exact ElementId.nodup_of_ascending hwell.ascending
      · rw [hwell.descendants_root, ElementTree.mem_attached_iff]
        exact ⟨e, hget, hattached⟩
    · exact StyleRule.toCss_ne_empty
        (StyleRule.isWritten_of_get? hselector hwidth)

/-- So has the style sheet of the troubled page, whose fourth element was
absorbed. -/
theorem troubledPage_hasRuleEach :
    ∃ conversion, Converter.convert {} (.ofList [troubledPage])
        = .ok conversion
      ∧ conversion.page.tree.isAttached ⟨3⟩ = false
      ∧ conversion.page.HasRuleEach := by
  have hrun : (Converter.convert {} (.ofList [troubledPage])).toOption.map
      (fun conversion => conversion.page.tree.isAttached ⟨3⟩)
      = some false := by
    decide +kernel
  obtain ⟨conversion, hconvert, habsorbed⟩ :=
    Converter.exists_conversion hrun
  exact ⟨conversion, hconvert, habsorbed, convert_hasRuleEach hconvert⟩

end LayerPage
