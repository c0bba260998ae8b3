/-
Trees that differ in rules and attributes alone (`Adorned`). That is what a
heuristic may change without touching what the markup depends on: tags and
links. Of the attributes it may set any; where the markup is to be read
back, their names must be told from their values, that is, have no `=` in
them (`Decorated`).
-/
import LayerPage.Proofs.Element.Restyled
import LayerPage.Proofs.Metadata

namespace LayerPage

variable {α : Type}

/-- Whether the names of an element's attributes end before the `=` that is
written after them. -/
def Element.HasPlainNames (e : Element α) : Prop :=
  ∀ entry ∈ e.attributes.toList, '=' ∉ entry.1.toList

namespace ElementTree

-- ============================================================= adornment

/-- Two trees that differ in rules and attributes alone. -/
structure Adorned (t t' : ElementTree α) : Prop where
  size : t'.size = t.size
  get? : ∀ {id e}, t.get? id = some e →
    ∃ e', t'.get? id = some e' ∧ e.Decorated e'

theorem Adorned.refl (t : ElementTree α) : t.Adorned t :=
  ⟨rfl, fun {_ e} hget => ⟨e, hget, .refl e⟩⟩

theorem Adorned.trans {t₁ t₂ t₃ : ElementTree α} (h₁ : t₁.Adorned t₂)
    (h₂ : t₂.Adorned t₃) : t₁.Adorned t₃ := by
  refine ⟨h₂.size.trans h₁.size, ?_⟩
  intro id e hget
  obtain ⟨e', hget', hstep⟩ := h₁.get? hget
  obtain ⟨e'', hget'', hstep'⟩ := h₂.get? hget'
  exact ⟨e'', hget'', hstep.trans hstep'⟩

/-- What is there after adorning was there before. -/
theorem Adorned.of_get? {t t' : ElementTree α} (h : t.Adorned t')
    {id : ElementId} {e' : Element α} (hget' : t'.get? id = some e') :
    ∃ e, t.get? id = some e ∧ e.Decorated e' :=
  exists_get?_of_partner h.size h.get? hget'

/-- Restyling changes nothing but rules. -/
theorem Restyled.adorned {t t' : ElementTree α} (h : t.Restyled t') :
    t.Adorned t' := by
  refine ⟨h.size, ?_⟩
  intro id e hget
  obtain ⟨e', hget', hstep⟩ := h.get? hget
  refine ⟨e', hget', ?_⟩
  unfold Element.Decorated
  have hattributes : e'.attributes = e.attributes := by
    rw [hstep.rule_only]
  rw [hattributes]
  exact hstep.rule_only

/-- A tree in which one element is decorated is adorned. -/
theorem adorned_modify {f : Element α → Element α}
    (hf : ∀ e : Element α, e.Decorated (f e)) (t : ElementTree α)
    (id : ElementId) : t.Adorned (t.modify id f) := by
  refine ⟨size_modify .., ?_⟩
  intro i e hget
  rw [get?_modify, hget]
  split
  · exact ⟨_, rfl, hf e⟩
  · exact ⟨e, rfl, .refl e⟩

/-- What does not look at rules and attributes is the same in both. -/
theorem Adorned.map_get? {β : Type} {t t' : ElementTree α}
    (h : t.Adorned t') {f : Element α → β}
    (hf : ∀ e e' : Element α, e.Decorated e' → f e' = f e)
    (id : ElementId) : (t'.get? id).map f = (t.get? id).map f := by
  cases hget : t.get? id with
  | none =>
      have hnone : t'.get? id = none := by
        rw [get?_eq_none_iff, h.size, ← get?_eq_none_iff]
        exact hget
      rw [hnone]
  | some e =>
      obtain ⟨e', hget', hstep⟩ := h.get? hget
      rw [hget', Option.map_some, Option.map_some, hf e e' hstep]

/-- Adorning neither adds elements nor takes any away. -/
theorem Adorned.attached {t t' : ElementTree α} (h : t.Adorned t') :
    t'.attached = t.attached := by
  have hsame : t'.isAttached = t.isAttached := by
    funext id
    have hdetached := h.map_get? (f := Element.detached)
      (fun e e' hstep => by rw [hstep]) id
    unfold isAttached
    cases hget : t.get? id with
    | none =>
        rw [hget, Option.map_none, Option.map_eq_none_iff] at hdetached
        rw [hdetached]
    | some e =>
        obtain ⟨e', hget', hstep⟩ := h.get? hget
        rw [hget, hget', Option.map_some, Option.map_some,
          Option.some_inj] at hdetached
        rw [hget', Option.any_some, Option.any_some, hdetached]
  unfold ElementTree.attached ElementTree.ids
  rw [hsame, h.size]

/-- Adorning does not change the way elements are visited. -/
theorem Adorned.visit {t t' : ElementTree α} (h : t.Adorned t')
    {pending visited : List ElementId} (hvisit : t.Visit pending visited) :
    t'.Visit pending visited := by
  refine hvisit.congr fun {id e} hget => ?_
  obtain ⟨e', hget', hstep⟩ := h.get? hget
  refine ⟨e', hget', ?_⟩
  unfold Element.Decorated at hstep
  rw [hstep]

-- =========================================================== plain names

/-- Two trees that differ in rules and attributes alone, and where no name
of an attribute in the second one is less plain than in the first one. -/
structure Decorated (t t' : ElementTree α) : Prop extends Adorned t t' where
  names : ∀ {id e e'}, t.get? id = some e → t'.get? id = some e' →
    e.HasPlainNames → e'.HasPlainNames

theorem Decorated.trans {t₁ t₂ t₃ : ElementTree α}
    (h₁ : t₁.Decorated t₂) (h₂ : t₂.Decorated t₃) : t₁.Decorated t₃ := by
  refine ⟨h₁.toAdorned.trans h₂.toAdorned, ?_⟩
  intro id e e'' hget hget'' hplain
  obtain ⟨e', hget', -⟩ := h₁.get? hget
  exact h₂.names hget' hget'' (h₁.names hget hget' hplain)

/-- Restyling leaves the names of attributes as plain as they are. -/
theorem Restyled.decorated {t t' : ElementTree α} (h : t.Restyled t') :
    t.Decorated t' := by
  refine ⟨h.adorned, ?_⟩
  intro id e e' hget hget' hplain
  obtain ⟨other, hother, hstep⟩ := h.get? hget
  cases hget'.symm.trans hother
  unfold Element.HasPlainNames
  rw [hstep.rule_only]
  exact hplain

end ElementTree

end LayerPage
