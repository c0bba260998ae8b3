/-
What is inferred, pins aside. Before layout a tree declares nothing but
pins, so what a finished page declares without a pin was written by layout,
by the reset of the root or by a heuristic: it has any property that these
few writes have (`Conversion.ComesFrom.infers`).

One such property is to be plain: the properties that layout and heuristics
declare, and the values they give them, have no angle bracket in them, so
nothing inferred is taken for a tag. Values are keywords, colours and
lengths; the texts that layers give are all pinned.
`Layout.IsInference.isPlain` says so of the writes of layout,
`Conversion.ComesFrom.infersPlain` of a finished page.
-/
import LayerPage.Proofs.Conversion
import LayerPage.Proofs.Layout.Extent

namespace LayerPage

variable {α : Type}

-- ================================================================= rules

/-- Whether all that a rule declares without a pin is as it should be. -/
def StyleRule.Infers (P : String → String → Prop) (rule : StyleRule) :
    Prop :=
  ∀ k v, rule.isPinned k = false → rule.get? k = some v → P k v

/-- Whether all that a rule declares without a pin is free of angle
brackets. -/
def StyleRule.InfersPlain (rule : StyleRule) : Prop :=
  ∀ k v, rule.isPinned k = false → rule.get? k = some v →
    '<' ∉ k.toList ∧ '<' ∉ v.toList

variable {P : String → String → Prop}

/-- A rule with nothing inferred meets every condition on inferred
values. -/
theorem StyleRule.HandWritten.infers {rule : StyleRule}
    (h : rule.HandWritten) : rule.Infers P := by
  intro k v hfree hget
  rw [h k hfree] at hget
  cases hget

/-- Inferring a value which meets the condition keeps it. -/
theorem StyleRule.Infers.infer {rule : StyleRule} (h : rule.Infers P)
    {property value : String} (hvalue : P property value) :
    (rule.infer property value).Infers P := by
  intro k v hfree hget
  rw [StyleRule.isPinned_infer] at hfree
  rw [StyleRule.get?_infer] at hget
  split at hget
  · next hinferred =>
    cases hget
    rw [hinferred.1]
    exact hvalue
  · exact h k v hfree hget

-- ================================================================ writes

namespace Layout

/-- Whether an inference is free of angle brackets. -/
def Write.IsPlain (w : Write) : Prop :=
  '<' ∉ w.property.toList ∧ '<' ∉ w.value.toList

/-- No length holds an angle bracket. -/
theorem not_mem_px (n : Int) : '<' ∉ (Length.px n).toList := by
  rw [Length.px, String.toList_append, List.mem_append, not_or]
  refine ⟨?_, by decide⟩
  intro hmem
  rcases Text.sign_or_isDigit_of_mem_toString hmem with h | h
  · cases h
  · cases h

theorem not_mem_toCss (c : Colour) : '<' ∉ c.toCss.toList := by
  have hdigits : ∀ n : Nat, '<' ∉ Nat.toDigits 10 n := by
    intro n hmem
    cases Nat.isDigit_of_mem_toDigits (by decide) (by decide) hmem
  simp [Colour.toCss, hdigits]

/-- All that layout writes is free of angle brackets. -/
theorem IsInference.isPlain [Layer α] {tree : ElementTree α} {w : Write}
    (h : IsInference tree w) : w.IsPlain := by
  have hnames : ∀ property ∈ properties, '<' ∉ property.toList := by
    decide
  have hwords : ∀ value ∈ ["auto", "left"], '<' ∉ value.toList := by
    decide
  refine ⟨hnames _ h.mem_properties, ?_⟩
  cases h with
  | colour id c => exact not_mem_toCss c
  | width id => exact not_mem_px _
  | height id => exact not_mem_px _
  | auto id _ => exact hwords _ (by simp)
  | distance id _ _ => exact not_mem_px _
  | float id => exact hwords _ (by simp)

end Layout

-- ================================================================= trees

namespace ElementTree

/-- Whether all that is inferred for attached elements is as it should
be. -/
def Infers (P : String → String → Prop) (tree : ElementTree α) : Prop :=
  ∀ id e, tree.get? id = some e → e.detached = false → e.style.Infers P

/-- Whether all that is inferred for attached elements is free of angle
brackets. -/
def InfersPlain (tree : ElementTree α) : Prop :=
  ∀ id e, tree.get? id = some e → e.detached = false →
    e.style.InfersPlain

/-- Changing rules in a way that keeps them as they should be. -/
theorem Infers.modifyStyle {tree : ElementTree α} (h : tree.Infers P)
    {f : StyleRule → StyleRule}
    (hf : ∀ rule : StyleRule, rule.Infers P → (f rule).Infers P)
    (id : ElementId) : (tree.modifyStyle id f).Infers P := by
  intro i e hget hattached
  rw [ElementTree.modifyStyle, get?_modify] at hget
  split at hget
  · obtain ⟨e', hget', rfl⟩ := Option.map_eq_some_iff.1 hget
    exact hf e'.style (h i e' hget' hattached)
  · exact h i e hget hattached

/-- Writes which meet the condition keep it in the whole tree. -/
theorem Infers.carryOut {tree : ElementTree α} (h : tree.Infers P)
    {writes : List Layout.Write}
    (hwrites : ∀ w ∈ writes, P w.property w.value) :
    (Layout.carryOut tree writes).Infers P := by
  induction writes generalizing tree with
  | nil => exact h
  | cons w rest ih =>
      have hfirst := hwrites w List.mem_cons_self
      refine ih (h.modifyStyle ?_ w.target)
        fun v hv => hwrites v (List.mem_cons_of_mem _ hv)
      exact fun rule hrule => hrule.infer hfirst

/-- Selecting declares nothing. -/
theorem Infers.selectAll {tree : ElementTree α} (h : tree.Infers P)
    (ids : List ElementId) :
    (Heuristic.selectAll tree ids).Infers P := by
  intro i e hget hattached
  rw [Heuristic.get?_selectAll] at hget
  split at hget
  · obtain ⟨e', hget', rfl⟩ := Option.map_eq_some_iff.1 hget
    exact h i e' hget' hattached
  · exact h i e hget hattached

end ElementTree

namespace Conversion.ComesFrom

variable [Layer α] {conversion : Conversion α} {source : LayerDocument α}
  {body : α} {below : Forest α} {built : BuiltTree α}

/-- On a finished page, what is not pinned is as it should be if all that
is ever inferred is. -/
theorem infers (h : conversion.ComesFrom source body below built)
    (hmargin : P "margin" "0px") (hpadding : P "padding" "0px")
    (hhidden : P "overflow" "hidden") {writes : List Layout.Write}
    (hlaidOut : built.laidOut = Layout.carryOut built.reset writes)
    (hwrites : ∀ w ∈ writes, P w.property w.value) :
    conversion.page.tree.Infers P := by
  have hbuilt : built.tree.Infers P := fun id e hget hattached =>
    (h.builtFrom.handWritten hget hattached).infers
  have hreset : built.reset.Infers P :=
    hbuilt.modifyStyle
      (fun _ hrule => (hrule.infer hmargin).infer hpadding) built.root
  have hlaid : built.laidOut.Infers P := by
    rw [hlaidOut]
    exact hreset.carryOut hwrites
  rw [h.tree]
  refine (hlaid.selectAll built.visits).carryOut ?_
  intro w hw
  obtain ⟨p, -, rfl⟩ := List.mem_map.1 hw
  exact hhidden

/-- On a finished page, what is not pinned is free of angle brackets. -/
theorem infersPlain (h : conversion.ComesFrom source body below built) :
    conversion.page.tree.InfersPlain := by
  have hplain : conversion.page.tree.Infers
      fun k v => '<' ∉ k.toList ∧ '<' ∉ v.toList := by
    refine h.infers (by decide) (by decide) (by decide) rfl ?_
    intro w hw
    obtain ⟨u, -, hvisit⟩ := List.mem_flatMap.1 hw
    exact (Layout.isInference_of_mem_visitWrites hvisit).isPlain
  exact hplain

end Conversion.ComesFrom

end LayerPage
