/-
Trees that differ in their rules alone. Layout and heuristics change
nothing but rules, and of a rule they keep every pin, so that each of
their steps leads from one tree to a restyled one.

What a tree says about places, kinds and flow does not look at rules;
the equations here say so, one for each thing that layout asks.
-/
import LayerPage.Proofs.Flow
import LayerPage.Proofs.Style

namespace LayerPage

variable {α : Type}

/-- Two elements that differ in their rule alone, pins excepted. -/
structure Element.Restyled (e e' : Element α) : Prop where
  rule_only : e' = { e with style := e'.style }
  pins : ∀ k, e'.style.pin? k = e.style.pin? k

theorem Element.Restyled.refl (e : Element α) : e.Restyled e :=
  ⟨rfl, fun _ => rfl⟩

theorem Element.Restyled.trans {e₁ e₂ e₃ : Element α}
    (h₁ : e₁.Restyled e₂) (h₂ : e₂.Restyled e₃) : e₁.Restyled e₃ := by
  refine ⟨?_, fun k => (h₂.pins k).trans (h₁.pins k)⟩
  rw [h₂.rule_only, h₁.rule_only]

/-- Restyling neither pins a property nor frees one. -/
theorem Element.Restyled.isPinned {e e' : Element α} (h : e.Restyled e')
    (k : String) : e'.style.isPinned k = e.style.isPinned k := by
  have hpin := h.pins k
  cases hfree : e.style.isPinned k with
  | false =>
      rw [← StyleRule.pin?_eq_none_iff] at hfree ⊢
      rw [hpin, hfree]
  | true =>
      cases hfree' : e'.style.isPinned k with
      | true => rfl
      | false =>
          rw [← StyleRule.pin?_eq_none_iff, hpin,
            StyleRule.pin?_eq_none_iff, hfree] at hfree'
          cases hfree'

/-- A change of the rule that keeps its pins restyles an element. -/
theorem Element.restyled_modifyStyle {f : StyleRule → StyleRule}
    (hf : ∀ rule k, (f rule).pin? k = rule.pin? k) (e : Element α) :
    e.Restyled (e.modifyStyle f) :=
  ⟨rfl, hf e.style⟩

namespace ElementTree

/-- Two trees that differ in their rules alone, pins excepted. -/
structure Restyled (t t' : ElementTree α) : Prop where
  size : t'.size = t.size
  get? : ∀ {id e}, t.get? id = some e →
    ∃ e', t'.get? id = some e' ∧ e.Restyled e'

theorem Restyled.refl (t : ElementTree α) : t.Restyled t :=
  ⟨rfl, fun {_ e} hget => ⟨e, hget, Element.Restyled.refl e⟩⟩

theorem Restyled.trans {t₁ t₂ t₃ : ElementTree α}
    (h₁ : t₁.Restyled t₂) (h₂ : t₂.Restyled t₃) : t₁.Restyled t₃ := by
  refine ⟨h₂.size.trans h₁.size, ?_⟩
  intro id e hget
  obtain ⟨e', hget', hstep⟩ := h₁.get? hget
  obtain ⟨e'', hget'', hstep'⟩ := h₂.get? hget'
  exact ⟨e'', hget'', hstep.trans hstep'⟩

/-- Restyling one element restyles the tree. -/
theorem restyled_modify {f : Element α → Element α}
    (hf : ∀ e : Element α, e.Restyled (f e)) (t : ElementTree α)
    (id : ElementId) : t.Restyled (t.modify id f) := by
  refine ⟨size_modify .., ?_⟩
  intro i e hget
  rw [get?_modify, hget]
  by_cases hi : i = id
  · rw [if_pos hi]
    exact ⟨_, rfl, hf e⟩
  · rw [if_neg hi]
    exact ⟨e, rfl, Element.Restyled.refl e⟩

theorem restyled_modifyStyle {f : StyleRule → StyleRule}
    (hf : ∀ rule k, (f rule).pin? k = rule.pin? k) (t : ElementTree α)
    (id : ElementId) : t.Restyled (t.modifyStyle id f) :=
  restyled_modify (Element.restyled_modifyStyle hf) t id

/-- A step that is taken under a condition restyles if the step does. -/
theorem Restyled.ite {t t' : ElementTree α} {condition : Prop}
    {_ : Decidable condition} (h : t.Restyled t') :
    t.Restyled (if condition then t' else t) := by
  split
  · exact h
  · exact .refl t

-- ===================================================== what stays the same

/-- Reading anything but the rule gives the same. -/
theorem Restyled.map_get? {t t' : ElementTree α} (h : t.Restyled t')
    {β : Type} {f : Element α → β}
    (hf : ∀ (e : Element α) style, f { e with style } = f e)
    (id : ElementId) : (t'.get? id).map f = (t.get? id).map f := by
  cases hget : t.get? id with
  | none =>
      have hnone : t'.get? id = none := by
        rw [get?_eq_none_iff, h.size, ← get?_eq_none_iff]
        exact hget
      rw [hnone]
  | some e =>
      obtain ⟨e', hget', hstep⟩ := h.get? hget
      rw [hget', Option.map_some, Option.map_some, hstep.rule_only, hf]

theorem Restyled.bind_get? {t t' : ElementTree α} (h : t.Restyled t')
    {β : Type} {f : Element α → Option β}
    (hf : ∀ (e : Element α) style, f { e with style } = f e)
    (id : ElementId) : (t'.get? id).bind f = (t.get? id).bind f := by
  have hmap := h.map_get? hf id
  cases hget : t.get? id with
  | none =>
      rw [hget, Option.map_none, Option.map_eq_none_iff] at hmap
      rw [hmap]
  | some e =>
      rw [hget] at hmap
      obtain ⟨e', hget', hfe⟩ := Option.map_eq_some_iff.1 hmap
      rw [hget', Option.bind_some, Option.bind_some, hfe]

/-- What is there after restyling was there before. -/
theorem Restyled.of_get? {t t' : ElementTree α} (h : t.Restyled t')
    {id : ElementId} {e' : Element α} (hget' : t'.get? id = some e') :
    ∃ e, t.get? id = some e ∧ e.Restyled e' :=
  exists_get?_of_partner h.size h.get? hget'

theorem Restyled.parentId? {t t' : ElementTree α} (h : t.Restyled t')
    (id : ElementId) : t'.parentId? id = t.parentId? id :=
  h.bind_get? (fun _ _ => rfl) id

/-- What was attached stays attached. -/
theorem Restyled.isAttached {t t' : ElementTree α} (h : t.Restyled t')
    (id : ElementId) : t'.isAttached id = t.isAttached id := by
  have hmap := h.map_get? (f := fun e => !e.detached) (fun _ _ => rfl) id
  have hany := congrArg (Option.any fun b => b) hmap
  rw [Option.any_map, Option.any_map] at hany
  exact hany

theorem Restyled.attached {t t' : ElementTree α} (h : t.Restyled t') :
    t'.attached = t.attached := by
  have hsame : t'.isAttached = t.isAttached := funext h.isAttached
  unfold ElementTree.attached ids
  rw [hsame, h.size]

/-- Restyling changes no way through the tree. -/
theorem Restyled.descendants {t t' : ElementTree α} (h : t.Restyled t')
    (root : ElementId) : t'.descendants root = t.descendants root := by
  have hwithin : ∀ levels id,
      t'.descendantsWithin levels id = t.descendantsWithin levels id := by
    intro levels
    induction levels with
    | zero => intro id; rfl
    | succ levels ih =>
        intro id
        rw [descendantsWithin, descendantsWithin, funext ih,
          h.map_get? fun _ _ => rfl]
  unfold ElementTree.descendants
  rw [h.size, hwithin]

theorem Restyled.visit {t t' : ElementTree α} (h : t.Restyled t')
    {pending visited : List ElementId} (hvisit : t.Visit pending visited) :
    t'.Visit pending visited := by
  refine hvisit.congr fun {id e} hget => ?_
  obtain ⟨e', hget', hstep⟩ := h.get? hget
  refine ⟨e', hget', ?_⟩
  rw [hstep.rule_only]

/-- Restyling keeps a tree well-formed, as long as it declares nothing on
detached elements. -/
theorem WellFormed.restyled {t t' : ElementTree α} {root : ElementId}
    (hwell : t.WellFormed root) (h : t.Restyled t')
    (hempty : ∀ id e, t'.get? id = some e → e.detached = true →
      e.style.isEmpty = true) : t'.WellFormed root := by
  refine
    { root_first := hwell.root_first
      root_get := ?_
      root_free := ?_
      child_lt := ?_
      detached_empty := ?_
      detached_free := ?_
      attached_child := ?_
      visit_root := ?_
      descendants_root := ?_
      ascending := ?_ }
  · obtain ⟨e, hget, hparent, hattached⟩ := hwell.root_get
    obtain ⟨e', hget', hstep⟩ := h.get? hget
    refine ⟨e', hget', ?_⟩
    rw [hstep.rule_only]
    exact ⟨hparent, hattached⟩
  · intro q eq' hgetq'
    obtain ⟨eq, hgetq, hstep⟩ := h.of_get? hgetq'
    rw [hstep.rule_only]
    exact hwell.root_free q eq hgetq
  · intro q eq' hgetq'
    obtain ⟨eq, hgetq, hstep⟩ := h.of_get? hgetq'
    rw [hstep.rule_only, h.size]
    exact hwell.child_lt q eq hgetq
  · intro id e' hget' hdetached
    have hrule := hempty id e' hget' hdetached
    obtain ⟨e, hget, hstep⟩ := h.of_get? hget'
    rw [hstep.rule_only] at hdetached ⊢
    obtain ⟨hparent, hchildren, hsiblings, -⟩ :=
      hwell.detached_empty id e hget hdetached
    exact ⟨hparent, hchildren, hsiblings, hrule⟩
  · -- links are read off the tree before
    intro id e' hget' hdetached q eq' hgetq'
    obtain ⟨e, hget, hstep⟩ := h.of_get? hget'
    obtain ⟨eq, hgetq, hstepq⟩ := h.of_get? hgetq'
    rw [hstep.rule_only] at hdetached
    rw [hstepq.rule_only]
    exact hwell.detached_free id e hget hdetached q eq hgetq
  · intro id e' hget' hattached hroot
    obtain ⟨e, hget, hstep⟩ := h.of_get? hget'
    rw [hstep.rule_only] at hattached ⊢
    obtain ⟨p, ep, hparent, hgetp, hep, hlt, hsiblings, hcount⟩ :=
      hwell.attached_child id e hget hattached hroot
    obtain ⟨ep', hgetp', hstepp⟩ := h.get? hgetp
    refine ⟨p, ep', hparent, hgetp', ?_, hlt, ?_, ?_⟩
    · rw [hstepp.rule_only]
      exact hep
    · rw [hstepp.rule_only]
      exact hsiblings
    · intro q eq' hgetq'
      obtain ⟨eq, hgetq, hstepq⟩ := h.of_get? hgetq'
      rw [hstepq.rule_only]
      exact hcount q eq hgetq
  · rw [h.descendants]
    exact h.visit hwell.visit_root
  · rw [h.descendants, h.attached]
    exact hwell.descendants_root
  · rw [h.descendants]
    exact hwell.ascending

/-- Changing what is not pinned in the rule of an attached element keeps a
tree well-formed. -/
theorem WellFormed.modifyStyle {tree : ElementTree α} {root id : ElementId}
    (hwell : tree.WellFormed root) (hid : tree.isAttached id = true)
    {f : StyleRule → StyleRule}
    (hf : ∀ rule k, (f rule).pin? k = rule.pin? k) :
    (tree.modifyStyle id f).WellFormed root := by
  apply hwell.restyled (restyled_modifyStyle hf tree id)
  intro i e hget hdetached
  by_cases hi : i = id
  · subst hi
    have hattached := (restyled_modifyStyle hf tree i).isAttached i
    rw [hid, isAttached_iff] at hattached
    obtain ⟨e', hget', hfalse⟩ := hattached
    rw [hget] at hget'
    cases hget'
    rw [hdetached] at hfalse
    cases hfalse
  · rw [ElementTree.modifyStyle, get?_modify_of_ne hi] at hget
    exact (hwell.detached_empty i e hget hdetached).2.2.2

section

variable [Layer α] {t t' : ElementTree α} (h : t.Restyled t')

include h

/-- Bounds come from layers, which restyling does not touch. -/
theorem Restyled.boundsAt (id : ElementId) :
    t'.boundsAt id = t.boundsAt id := by
  unfold ElementTree.boundsAt
  rw [h.map_get? fun _ _ => rfl]

/-- Restyling leaves the flow of children as it is, and all that is read
off it. -/
theorem Restyled.flow (id : ElementId) : t'.flow id = t.flow id := by
  have hbounds : t'.boundsAt = t.boundsAt := funext h.boundsAt
  unfold ElementTree.flow childrenOf
  rw [hbounds, h.map_get? fun _ _ => rfl]

theorem Restyled.flowOrder (id : ElementId) :
    t'.flowOrder id = t.flowOrder id := by
  have hbounds : t'.boundsAt = t.boundsAt := funext h.boundsAt
  unfold ElementTree.flowOrder
  rw [hbounds, h.map_get? fun _ _ => rfl]

theorem Restyled.prevInFlow? (id : ElementId) :
    t'.prevInFlow? id = t.prevInFlow? id := by
  unfold ElementTree.prevInFlow?
  rw [h.flowOrder]

theorem Restyled.nextInFlow? (id : ElementId) :
    t'.nextInFlow? id = t.nextInFlow? id := by
  unfold ElementTree.nextInFlow?
  rw [h.flowOrder]

theorem Restyled.isNormal (id : ElementId) :
    t'.isNormal id = t.isNormal id := by
  have hmap := h.map_get? (f := fun e => Layer.kind e.layer == .normal)
    (fun _ _ => rfl) id
  unfold ElementTree.isNormal
  have hany := congrArg (Option.any fun b => b) hmap
  rw [Option.any_map, Option.any_map] at hany
  exact hany

theorem Restyled.normalParent? (id : ElementId) :
    t'.normalParent? id = t.normalParent? id := by
  have hnormal : t'.isNormal = t.isNormal := funext h.isNormal
  unfold ElementTree.normalParent?
  rw [hnormal, h.parentId?]

end

end ElementTree

end LayerPage
