/-
Overflow on a finished page. A box does not grow with children that float,
so an element hides its overflow if a child of it floats. What decides is
whether a child declares a float (`convert_hidesOverflow`), whoever wrote
it: layout or a name, before or after the child was looked at.

A declared float need not float anything. A name may pin `none`, and a
parent hides its overflow on account of such a child as well. So overflow
is hidden just where it has to be unless all floats that the children
declare are pinned to `none`, and then it is hidden for nothing.
-/
import LayerPage.Proofs.PropertyName

namespace LayerPage

variable {α : Type}

-- ============================================================== floats

namespace ElementTree

/-- Whether an element declares a float. -/
def DeclaresFloat (tree : ElementTree α) (id : ElementId) : Prop :=
  (tree.valueOf? id "float").isSome = true

instance (tree : ElementTree α) : DecidablePred tree.DeclaresFloat :=
  fun _ => inferInstanceAs (Decidable (_ = true))

/-- Whether an element is floated by its rule. -/
def IsFloated (tree : ElementTree α) (id : ElementId) : Prop :=
  ∃ value, tree.valueOf? id "float" = some value ∧ value ≠ "none"

/-- Whether an element has its overflow hidden if a child is floated, and
no overflow declared if none is. -/
structure ContainsFloats (tree : ElementTree α) (e : Element α) : Prop where
  hidden : (∃ c ∈ e.children, tree.IsFloated c) →
    e.style.get? "overflow" = some "hidden"
  plain : (¬∃ c ∈ e.children, tree.IsFloated c) →
    e.style.get? "overflow" = none

/-- A declared float is `none`, or it floats the element. -/
theorem declaresFloat_iff {tree : ElementTree α} {id : ElementId} :
    tree.DeclaresFloat id
      ↔ tree.IsFloated id ∨ tree.valueOf? id "float" = some "none" := by
  unfold DeclaresFloat IsFloated
  cases tree.valueOf? id "float" with
  | none => simp
  | some value => simp [or_comm, em]

/-- If the overflow is hidden for every float that a child declares, it is
hidden for nothing just if all of these are `none`. -/
theorem containsFloats_iff {tree : ElementTree α} {e : Element α}
    (h : e.style.get? "overflow"
      = if ∃ c ∈ e.children, tree.DeclaresFloat c then some "hidden"
        else none) :
    tree.ContainsFloats e
      ↔ ((∃ c ∈ e.children, tree.valueOf? c "float" = some "none") →
        ∃ c ∈ e.children, tree.IsFloated c) := by
  constructor
  · intro hcontains hnone
    obtain ⟨c, hc, hvalue⟩ := hnone
    have hdeclared : ∃ c ∈ e.children, tree.DeclaresFloat c :=
      ⟨c, hc, declaresFloat_iff.2 (.inr hvalue)⟩
    rw [if_pos hdeclared] at h
    apply Classical.byContradiction
    intro hfree
    rw [hcontains.plain hfree] at h
    cases h
  · intro hall
    refine ⟨?_, ?_⟩
    · intro hfloated
      obtain ⟨c, hc, hfloats⟩ := hfloated
      rw [h, if_pos ⟨c, hc, declaresFloat_iff.2 (.inl hfloats)⟩]
    · intro hfree
      rw [h, if_neg]
      intro hdeclared
      obtain ⟨c, hc, hfloat⟩ := hdeclared
      rcases declaresFloat_iff.1 hfloat with hfloats | hvalue
      · exact hfree ⟨c, hc, hfloats⟩
      · exact hfree (hall ⟨c, hc, hvalue⟩)

end ElementTree

-- ============================================================== hiding

open Heuristic (hidings floatParent?)

/-- Hiding the overflow of some elements declares it at these. -/
theorem Heuristic.latest?_hidings (parents : List ElementId)
    (id : ElementId) :
    Layout.latest? (hidings parents) id "overflow"
      = if id ∈ parents then some "hidden" else none := by
  induction parents with
  | nil => rfl
  | cons p rest ih =>
      have hcons : hidings (p :: rest)
          = [⟨p, "overflow", "hidden"⟩] ++ hidings rest := rfl
      rw [hcons, Layout.latest?_append, ih, Layout.latest?_singleton]
      by_cases hrest : id ∈ rest
      · simp [hrest]
      · rw [if_neg hrest, Option.none_or]
        simp [hrest, eq_comm]

/-- A parent hides what overflows on behalf of a child that declares a
float. -/
theorem Heuristic.floatParent?_eq_some_iff {tree : ElementTree α}
    {c p : ElementId} :
    floatParent? tree c = some p
      ↔ tree.parentId? c = some p ∧ tree.DeclaresFloat c := by
  unfold floatParent? ElementTree.DeclaresFloat
  split
  · next hfloat => simp [hfloat]
  · next hfloat => simp [hfloat]

variable [Layer α]

namespace Conversion.ComesFrom

variable {conversion : Conversion α} {source : LayerDocument α} {body : α}
  {below : Forest α} {built : BuiltTree α}

/-- Only hiding declares an overflow that no name pins. -/
theorem valueOf?_overflow
    (h : conversion.ComesFrom source body below built) {id : ElementId}
    (hid : built.tree.isAttached id = true)
    (hfree : built.tree.isPinned id "overflow" = false) :
    conversion.page.tree.valueOf? id "overflow"
      = if id ∈ built.visits.filterMap (floatParent? built.laidOut)
        then some "hidden" else none := by
  have hselected := built.restyled_laidOut.trans
    (Heuristic.restyled_selectAll built.laidOut built.visits)
  obtain ⟨e, hget, -⟩ := ElementTree.isAttached_iff.1 hid
  have hlt := ElementTree.get?_isSome_iff.1 ⟨e, hget⟩
  have hlaidOut : built.laidOut.valueOf? id "overflow" = none := by
    unfold BuiltTree.laidOut
    rw [Layout.valueOf?_carryOut,
      Layout.latest?_flatMap_eq_none fun u _ =>
        Layout.latest?_visit_of_not_mem _ u id (by decide),
      h.valueOf?_reset hid hfree (by decide) (by decide)]
    · rfl
    · rw [built.restyled_reset.size]
      exact hlt
    · rw [built.restyled_reset.isPinned]
      exact hfree
  rw [h.tree, Layout.valueOf?_carryOut, Heuristic.latest?_hidings,
    Heuristic.valueOf?_selectAll, hlaidOut, Option.or_none]
  · rw [hselected.size]
    exact hlt
  · rw [hselected.isPinned]
    exact hfree

/-- Nothing after layout declares a float, or takes one away. -/
theorem declaresFloat_iff
    (h : conversion.ComesFrom source body below built) {c : ElementId} :
    conversion.page.tree.DeclaresFloat c
      ↔ built.laidOut.DeclaresFloat c := by
  unfold ElementTree.DeclaresFloat
  rw [h.tree, Heuristic.valueOf?_hidings (by decide),
    Heuristic.valueOf?_selectAll]

/-- The elements whose overflow is hidden are the parents of those that
declare a float in the end. -/
theorem mem_hidden_iff
    (h : conversion.ComesFrom source body below built) {id : ElementId}
    {e : Element α} (hget : conversion.page.tree.get? id = some e) :
    id ∈ built.visits.filterMap (floatParent? built.laidOut)
      ↔ ∃ c ∈ e.children, conversion.page.tree.DeclaresFloat c := by
  have hchild : ∀ c, c ∈ e.children
      ↔ conversion.page.tree.parentId? c = some id := by
    intro c
    rw [← h.wellFormed.mem_flow_iff, ElementTree.mem_flow,
      ElementTree.childrenOf_of_get? hget]
  have hparent : ∀ c, built.laidOut.parentId? c
      = conversion.page.tree.parentId? c := by
    intro c
    rw [h.restyled.parentId?, built.restyled_laidOut.parentId?]
  rw [List.mem_filterMap]
  constructor
  · intro hfloat
    obtain ⟨c, -, hc⟩ := hfloat
    obtain ⟨hup, hdeclared⟩ := Heuristic.floatParent?_eq_some_iff.1 hc
    rw [hparent] at hup
    exact ⟨c, (hchild c).2 hup, h.declaresFloat_iff.2 hdeclared⟩
  · intro hfloat
    obtain ⟨c, hc, hdeclared⟩ := hfloat
    have hup := (hchild c).1 hc
    refine ⟨c, ?_, Heuristic.floatParent?_eq_some_iff.2 ⟨?_, ?_⟩⟩
    · rw [h.mem_visits_iff, ← h.restyled.isAttached]
      exact (h.wellFormed.isAttached_of_parentId? hup).1
    · rw [hparent]
      exact hup
    · exact h.declaresFloat_iff.1 hdeclared

end Conversion.ComesFrom

-- ========================================================== containment

/-- On a finished page, an element whose overflow no name pins has it
hidden if one of its children declares a float, and declares none if no
child does. That contains the floats of the element, and no others, unless
the floats of its children are all pinned to `none`. -/
theorem convert_hidesOverflow {source : LayerDocument α}
    {conversion : Conversion α}
    (h : Converter.convert {} source = .ok conversion) :
    ∀ id e, conversion.page.tree.get? id = some e → e.detached = false →
      e.style.isPinned "overflow" = false →
      e.style.get? "overflow"
          = (if ∃ c ∈ e.children, conversion.page.tree.DeclaresFloat c
            then some "hidden" else none)
        ∧ (conversion.page.tree.ContainsFloats e
          ↔ ((∃ c ∈ e.children,
              conversion.page.tree.valueOf? c "float" = some "none") →
            ∃ c ∈ e.children, conversion.page.tree.IsFloated c)) := by
  obtain ⟨body, below, built, hfrom⟩ := Conversion.exists_comesFrom h
  intro id e hget hattached hfree
  have hid : built.tree.isAttached id = true := by
    rw [← hfrom.restyled.isAttached]
    exact ElementTree.isAttached_iff.2 ⟨e, hget, hattached⟩
  have hpinned : built.tree.isPinned id "overflow" = false := by
    rw [← hfrom.restyled.isPinned, ElementTree.isPinned, hget]
    exact hfree
  have hvalue := hfrom.valueOf?_overflow hid hpinned
  rw [ElementTree.valueOf?, hget, Option.bind_some] at hvalue
  simp only [hfrom.mem_hidden_iff hget] at hvalue
  exact ⟨hvalue, ElementTree.containsFloats_iff hvalue⟩

/-- What of a page with a box decides about its overflow: the children of
its body, what the body declares, and what the box does. -/
private theorem boxPage_run (name float : String)
    (hrun : (Converter.convert {} (.ofList [boxPage name])).toOption.map
      (fun conversion =>
        ((conversion.page.tree.get? ⟨0⟩).map fun body =>
            (body.detached || body.style.isPinned "overflow",
              body.children, body.style.get? "overflow"),
          conversion.page.tree.valueOf? ⟨1⟩ "float"))
      = some (some (false, [⟨1⟩], some "hidden"), some float)) :
    ∃ conversion, Converter.convert {} (.ofList [boxPage name])
        = .ok conversion
      ∧ ∃ body, conversion.page.tree.get? ⟨0⟩ = some body
        ∧ body.detached = false ∧ body.style.isPinned "overflow" = false
        ∧ body.style.get? "overflow" = some "hidden"
        ∧ ((∃ c ∈ body.children, conversion.page.tree.IsFloated c)
          ↔ float ≠ "none") := by
  obtain ⟨conversion, hconvert, hknown⟩ := Converter.exists_conversion hrun
  obtain ⟨hbody, hfloat⟩ := Prod.mk.inj hknown
  obtain ⟨body, hget, hfields⟩ := Option.map_eq_some_iff.1 hbody
  simp only [Prod.mk.injEq, Bool.or_eq_false_iff] at hfields
  obtain ⟨⟨hattached, hfree⟩, hchildren, hhidden⟩ := hfields
  refine ⟨conversion, hconvert, body, hget, hattached, hfree, hhidden, ?_⟩
  rw [hchildren]
  simp [ElementTree.IsFloated, hfloat]

/-- A page with a box that is floated by hand contains it. -/
theorem boxPage_hidesOverflow :
    ∃ conversion, Converter.convert {}
        (.ofList [boxPage "box[css:float=\"right\"]"]) = .ok conversion
      ∧ ∃ body, conversion.page.tree.get? ⟨0⟩ = some body
        ∧ body.detached = false ∧ body.style.isPinned "overflow" = false
        ∧ (∃ c ∈ body.children, conversion.page.tree.IsFloated c)
        ∧ body.style.get? "overflow" = some "hidden"
        ∧ conversion.page.tree.ContainsFloats body := by
  obtain ⟨conversion, hconvert, body, hget, hattached, hfree, hhidden,
    hfloated⟩ := boxPage_run "box[css:float=\"right\"]" "right"
      (by decide +kernel)
  have hfloats := hfloated.2 (by decide)
  have hcontains : conversion.page.tree.ContainsFloats body :=
    (convert_hidesOverflow hconvert ⟨0⟩ body hget hattached hfree).2.2
      fun _ => hfloats
  exact ⟨conversion, hconvert, body, hget, hattached, hfree, hfloats,
    hhidden, hcontains⟩

/-- The only child of a page is pinned not to float, and the page hides
its overflow all the same. -/
theorem unfloated_hidesOverflow :
    ∃ conversion, Converter.convert {}
        (.ofList [boxPage "box[css:float=\"none\"]"]) = .ok conversion
      ∧ ∃ body, conversion.page.tree.get? ⟨0⟩ = some body
        ∧ body.detached = false ∧ body.style.isPinned "overflow" = false
        ∧ (¬∃ c ∈ body.children, conversion.page.tree.IsFloated c)
        ∧ body.style.get? "overflow" = some "hidden"
        ∧ ¬conversion.page.tree.ContainsFloats body := by
  obtain ⟨conversion, hconvert, body, hget, hattached, hfree, hhidden,
    hfloated⟩ := boxPage_run "box[css:float=\"none\"]" "none"
      (by decide +kernel)
  have hunfloated :
      ¬∃ c ∈ body.children, conversion.page.tree.IsFloated c := by
    rw [hfloated]
    simp
  refine ⟨conversion, hconvert, body, hget, hattached, hfree, hunfloated,
    hhidden, ?_⟩
  intro hcontains
  rw [hcontains.plain hunfloated] at hhidden
  cases hhidden

end LayerPage
