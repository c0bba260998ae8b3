/-
What layout makes of a page, as a function of its geometry. The value of
every property is read off places, sizes, kinds and the order of flow,
with no regard to how it is inferred, in which order elements are visited
or which visit writes what. One pin has a say: an element whose padding
is pinned keeps its height.

`value?` puts the properties together; a property it does not know is
left alone by layout.
-/
import LayerPage.Proofs.Layout.Trace

namespace LayerPage

variable {α : Type} [Layer α]

namespace Geometry

open Length (px)

variable (tree : ElementTree α) (id : ElementId)

-- =========================================================== neighbours

/-- The element after another one in the flow of its normal parent. -/
def next? : Option ElementId :=
  (tree.normalParent? id).bind fun p =>
    ElementTree.after? id (tree.flow p)

/-- The element before another one in the flow of its normal parent. -/
def previous? : Option ElementId :=
  (tree.normalParent? id).bind fun p =>
    ElementTree.before? id (tree.flow p)

/-- The first child in the flow of a normal element. -/
def first? : Option ElementId :=
  if tree.isNormal id then (tree.flow id).head? else none

-- =========================================================== properties

/-- The colour of the top left pixel, unless it is transparent. -/
def background? : Option String :=
  ((tree.get? id).bind fun e => Layer.sample? e.layer 0 0).bind fun colour =>
    if colour.a > 0 then some colour.toCss else none

/-- The width of an element that has a parent. -/
def width? : Option String :=
  if tree.parentId? id = none then none
  else some (px (tree.boundsAt id).width.toInt)

/-- How far the first child is below the top of a normal element. -/
def headroom? : Option Int :=
  (first? tree id).bind fun first =>
    let room := (tree.boundsAt first).top - (tree.boundsAt id).top
    if room > 0 then some room else none

/-- The padding above the first child. -/
def paddingTop? : Option String :=
  (headroom? tree id).map px

/-- The height of an element that has a parent, less the padding that is
inferred for it. -/
def height? : Option String :=
  let height := (tree.boundsAt id).height.toInt
  let inner? := (headroom? tree id).map fun room => max (height - room) 0
  if tree.parentId? id = none then none
  else if tree.isPinned id "padding-top" then some (px height)
  else some (px (inner?.getD height))

/-- An element floats if another child of its normal parent is level. -/
def float? : Option String :=
  (tree.normalParent? id).bind fun p =>
    if ∃ i ∈ tree.childrenOf p, i ≠ id
        ∧ (tree.boundsAt i).top = (tree.boundsAt id).top then
      some "left"
    else none

/-- The margin on either side of an element that is as far from the right
edge of its normal parent as from the left one. -/
def centring? : Option String :=
  (tree.normalParent? id).bind fun p =>
    if (tree.boundsAt p).right - (tree.boundsAt id).right
        = (tree.boundsAt id).left - (tree.boundsAt p).left then
      some "auto"
    else none

/-- The distance to the next element if that is level. -/
def gap? : Option String :=
  (next? tree id).bind fun next =>
    let gap := (tree.boundsAt next).left - (tree.boundsAt id).right
    if (tree.boundsAt next).top = (tree.boundsAt id).top ∧ gap > 0 then
      some (px gap)
    else none

/-- The distance to the next element counts before the centring. -/
def marginRight? : Option String :=
  (gap? tree id).or (centring? tree id)

/-- The distance from the bottom of the element before. -/
def marginTop? : Option String :=
  (previous? tree id).bind fun previous =>
    let gap := (tree.boundsAt id).top - (tree.boundsAt previous).bottom
    if gap > 0 then some (px gap) else none

/-- The value that layout gives to a property that is not pinned. -/
def value? (property : String) : Option String :=
  ([("background", background? tree id), ("width", width? tree id),
    ("height", height? tree id), ("margin-left", centring? tree id),
    ("margin-right", marginRight? tree id),
    ("margin-top", marginTop? tree id),
    ("padding-top", paddingTop? tree id),
    ("float", float? tree id)].lookup property).join

-- =============================================== neighbours, from inside

variable {tree id}

/-- In a normal parent the next child is the next one of the flow. -/
theorem next?_of_normalParent? {root p : ElementId}
    (hwell : tree.WellFormed root) (hp : tree.normalParent? id = some p) :
    next? tree id = tree.nextInFlow? id := by
  unfold next? ElementTree.nextInFlow?
  rw [hp, Option.bind_some,
    hwell.flowOrder_eq (ElementTree.parentId?_of_normalParent? hp)]

/-- In a normal parent the previous child is the previous one of
the flow. -/
theorem previous?_of_normalParent? {root p : ElementId}
    (hwell : tree.WellFormed root) (hp : tree.normalParent? id = some p) :
    previous? tree id = tree.prevInFlow? id := by
  unfold previous? ElementTree.prevInFlow?
  rw [hp, Option.bind_some,
    hwell.flowOrder_eq (ElementTree.parentId?_of_normalParent? hp)]

/-- Whoever is before an element has that element after it. -/
theorem previous?_eq_some_iff {root i : ElementId}
    (hwell : tree.WellFormed root) :
    previous? tree id = some i
      ↔ ∃ p, tree.normalParent? i = some p
        ∧ tree.nextInFlow? i = some id := by
  constructor
  · intro hprev
    obtain ⟨p, hp, -⟩ := Option.bind_eq_some_iff.1 hprev
    rw [previous?_of_normalParent? hwell hp] at hprev
    have hparent := ElementTree.parentId?_of_normalParent? hp
    have hparenti := hwell.parentId?_of_prevInFlow? hparent hprev
    refine ⟨p, ?_, ?_⟩
    · rw [ElementTree.normalParent?_congr (hparenti.trans hparent.symm), hp]
    · exact (hwell.nextInFlow?_iff_prevInFlow? hparenti).2
        ⟨hparent, hprev⟩
  · rintro ⟨p, hp, hnext⟩
    have hparenti := ElementTree.parentId?_of_normalParent? hp
    obtain ⟨hparent, hprev⟩ :=
      (hwell.nextInFlow?_iff_prevInFlow? hparenti).1 hnext
    have hp' : tree.normalParent? id = some p := by
      rw [ElementTree.normalParent?_congr (hparent.trans hparenti.symm), hp]
    rw [previous?_of_normalParent? hwell hp', hprev]

/-- The first child is the one before which nothing stands. -/
theorem first?_eq_some_iff {root i : ElementId}
    (hwell : tree.WellFormed root) :
    first? tree id = some i
      ↔ tree.normalParent? i = some id ∧ tree.prevInFlow? i = none := by
  have hnormal : ∀ q, tree.normalParent? i = some q
      ↔ tree.parentId? i = some q ∧ tree.isNormal q = true := fun q =>
    Option.filter_eq_some_iff
  rw [hnormal, first?]
  constructor
  · intro h
    split at h
    · next hid =>
      have hparent := hwell.mem_flow_iff.1 (List.mem_of_head? h)
      exact ⟨⟨hparent, hid⟩, (hwell.prevInFlow?_eq_none_iff hparent).2 h⟩
    · cases h
  · rintro ⟨⟨hparent, hid⟩, hfirst⟩
    rw [if_pos hid]
    exact (hwell.prevInFlow?_eq_none_iff hparent).1 hfirst

/-- Neighbours in the flow of a normal element, seen from the first one. -/
theorem next?_eq_some_iff {root p i : ElementId}
    (hwell : tree.WellFormed root) (hp : tree.normalParent? id = some p) :
    next? tree id = some i ↔ [id, i] <:+: tree.flow p := by
  rw [next?_of_normalParent? hwell hp]
  exact hwell.nextInFlow?_eq_some_iff
    (ElementTree.parentId?_of_normalParent? hp)

/-- Neighbours in the flow of a normal element, seen from the second
one. -/
theorem previous?_eq_some_iff_infix {root p i : ElementId}
    (hwell : tree.WellFormed root) (hp : tree.normalParent? id = some p) :
    previous? tree id = some i ↔ [i, id] <:+: tree.flow p := by
  rw [previous?_of_normalParent? hwell hp]
  exact hwell.prevInFlow?_eq_some_iff
    (ElementTree.parentId?_of_normalParent? hp)

end Geometry

-- ============================================================ restyling

/-- Layout does not change what it reads. -/
theorem ElementTree.Restyled.value? {t t' : ElementTree α}
    (h : t.Restyled t') (id : ElementId) (k : String) :
    Geometry.value? t' id k = Geometry.value? t id k := by
  have hchildren : ∀ p, t'.childrenOf p = t.childrenOf p := by
    intro p
    unfold ElementTree.childrenOf
    rw [h.map_get? fun _ _ => rfl]
  have hsample := h.bind_get? (f := fun e => Layer.sample? e.layer 0 0)
    (fun _ _ => rfl) id
  unfold Geometry.value? Geometry.background? Geometry.width?
    Geometry.height? Geometry.marginRight? Geometry.marginTop?
    Geometry.paddingTop? Geometry.float? Geometry.gap? Geometry.centring?
    Geometry.headroom? Geometry.first? Geometry.previous? Geometry.next?
  simp only [hsample, hchildren, h.parentId?, h.boundsAt, h.flow,
    h.normalParent?, h.isNormal, h.isPinned]

end LayerPage
