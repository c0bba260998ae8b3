/-
Layout of a design that was moved. If every layer is moved by the same
distance, layout infers the same: `visitWrites_map`. Of places it reads
differences only, of two layers each time.

# Who is there to be moved

The bounds at an index without an element are all zero, and those do not
move. So every lemma about two places asks for two elements, and a
well-formed tree has them: an element of a flow has a parent, and both are
there (`WellFormed.lt_size_of_parentId?`).
-/
import LayerPage.Proofs.Build.Map
import LayerPage.Proofs.Conversion

namespace LayerPage

-- ================================================================= places

/-- Whether bounds are other bounds, moved. -/
structure Bounds.IsMoved (dx dy : Int) (a b : Bounds) : Prop where
  left : b.left = a.left + dx
  top : b.top = a.top + dy
  width : b.width = a.width
  height : b.height = a.height

namespace Bounds.IsMoved

variable {dx dy : Int} {a b a' b' : Bounds}

theorem right (h : a.IsMoved dx dy b) : b.right = a.right + dx := by
  have hleft := h.left
  unfold Bounds.left at hleft
  unfold Bounds.right
  rw [h.width]
  omega

theorem bottom (h : a.IsMoved dx dy b) : b.bottom = a.bottom + dy := by
  have htop := h.top
  unfold Bounds.top at htop
  unfold Bounds.bottom
  rw [h.height]
  omega

/-- Moving two places alike keeps which one comes first. -/
theorem flowLe (h : a.IsMoved dx dy b) (h' : a'.IsMoved dx dy b') :
    ElementTree.flowLe b b' = ElementTree.flowLe a a' := by
  have hleft : b.left ≤ b'.left ↔ a.left ≤ a'.left := by
    rw [h.left, h'.left]
    omega
  have htop : b.top < b'.top ↔ a.top < a'.top := by
    rw [h.top, h'.top]
    omega
  have hlevel : (b.top == b'.top) = (a.top == a'.top) := by
    rw [h.top, h'.top, Bool.eq_iff_iff, beq_iff_eq, beq_iff_eq]
    omega
  unfold ElementTree.flowLe
  rw [hlevel, decide_eq_decide.2 htop, decide_eq_decide.2 hleft]

/-- Moving two places alike keeps whether the one centres the other. -/
theorem centred? (h : a.IsMoved dx dy b) (h' : a'.IsMoved dx dy b') :
    Layout.centred? b b' = Layout.centred? a a' := by
  have hsides : b.right - b'.right = b'.left - b.left
      ↔ a.right - a'.right = a'.left - a.left := by
    rw [h.right, h'.right, h.left, h'.left]
    omega
  unfold Layout.centred?
  simp only [hsides]

end Bounds.IsMoved

-- ================================================================= layers

variable {α β : Type} [Layer α] [Layer β]

/-- Whether a map of layers moves them all by the same distance and keeps
what layout reads of them besides. -/
structure Layer.Displaces (dx dy : Int) (f : α → β) : Prop where
  kind : ∀ layer, Layer.kind (f layer) = Layer.kind layer
  bounds : ∀ layer,
    (Layer.bounds layer).IsMoved dx dy (Layer.bounds (f layer))
  sample? : ∀ layer x y, Layer.sample? (f layer) x y = Layer.sample? layer x y

/-- Whether a map of layers moves them all by the same distance and keeps
all else. -/
structure Layer.Moves (dx dy : Int) (f : α → β) : Prop
    extends Layer.Keeps f, Layer.Displaces dx dy f

namespace ElementTree

variable {f : α → β} {dx dy : Int} {tree : ElementTree α} {root : ElementId}

omit [Layer α] in
/-- A child and its parent are elements. -/
theorem WellFormed.lt_size_of_parentId? (hwell : tree.WellFormed root)
    {id p : ElementId} (h : tree.parentId? id = some p) :
    id.index < tree.size ∧ p.index < tree.size := by
  obtain ⟨e, hget, hp⟩ := Option.bind_eq_some_iff.1 h
  obtain ⟨ep, hgetp, -⟩ := hwell.parent hget hp
  exact ⟨get?_isSome_iff.1 ⟨e, hget⟩, get?_isSome_iff.1 ⟨ep, hgetp⟩⟩

/-- The bounds of each element have moved by the same distance. -/
theorem isMoved_boundsAt (h : Layer.Displaces dx dy f) {id : ElementId}
    (hid : id.index < tree.size) :
    (tree.boundsAt id).IsMoved dx dy ((tree.map f).boundsAt id) := by
  obtain ⟨e, hget⟩ := get?_isSome_iff.2 hid
  unfold boundsAt
  rw [get?_map, hget]
  exact h.bounds e.layer

theorem normalParent?_map (h : Layer.Displaces dx dy f) (id : ElementId) :
    (tree.map f).normalParent? id = tree.normalParent? id := by
  have hnormal : (tree.map f).isNormal = tree.isNormal := by
    funext p
    unfold isNormal
    rw [get?_map, Option.any_map]
    simp only [Element.map, h.kind]
  unfold normalParent?
  rw [parentId?_map, hnormal]

/-- Moved peers flow in the same order. -/
theorem flowOrder_map (h : Layer.Displaces dx dy f)
    (hwell : tree.WellFormed root) {u p : ElementId}
    (hp : tree.parentId? u = some p) :
    (tree.map f).flowOrder u = tree.flowOrder u := by
  have hsiblings : ((tree.map f).get? u).map (·.siblings)
      = (tree.get? u).map (·.siblings) :=
    map_get?_map f tree u fun _ => rfl
  have hpeer : ∀ i ∈ ((tree.get? u).map (·.siblings)).getD [],
      i.index < tree.size := by
    intro i hi
    have hflow : i ∈ tree.flow p := by
      rw [← hwell.flowOrder_eq hp]
      exact (List.mergeSort_perm ..).mem_iff.2 hi
    exact (hwell.lt_size_of_parentId? (hwell.mem_flow_iff.1 hflow)).1
  unfold flowOrder
  rw [hsiblings]
  generalize ((tree.get? u).map (·.siblings)).getD [] = peers at hpeer ⊢
  -- sorting with another comparison that agrees on the items
  have hsort : (peers.mergeSort fun a b =>
        flowLe (tree.boundsAt a) (tree.boundsAt b)).map id
      = (peers.map id).mergeSort fun a b =>
        flowLe ((tree.map f).boundsAt a) ((tree.map f).boundsAt b) :=
    List.map_mergeSort fun a ha b hb =>
      ((isMoved_boundsAt h (hpeer a ha)).flowLe
        (isMoved_boundsAt h (hpeer b hb))).symm
  rw [List.map_id, List.map_id] at hsort
  exact hsort.symm

/-- The order of flow does not change when all is moved alike, so what
comes before an element stays. -/
theorem prevInFlow?_map (h : Layer.Displaces dx dy f)
    (hwell : tree.WellFormed root) {u p : ElementId}
    (hp : tree.parentId? u = some p) :
    (tree.map f).prevInFlow? u = tree.prevInFlow? u := by
  unfold prevInFlow?
  rw [flowOrder_map h hwell hp]

/-- What comes next stays, too. -/
theorem nextInFlow?_map (h : Layer.Displaces dx dy f)
    (hwell : tree.WellFormed root) {u p : ElementId}
    (hp : tree.parentId? u = some p) :
    (tree.map f).nextInFlow? u = tree.nextInFlow? u := by
  unfold nextInFlow?
  rw [flowOrder_map h hwell hp]

end ElementTree

-- ============================================================ inferences

namespace Layout

variable {f : α → β} {dx dy : Int} {tree : ElementTree α}
  {root : ElementId}

theorem colour?_map (h : Layer.Displaces dx dy f) (u : ElementId) :
    colour? (tree.map f) u = colour? tree u := by
  unfold colour?
  rw [ElementTree.bind_get?_map f tree u fun e => h.sample? e.layer 0 0]

theorem sizeWrites_map (h : Layer.Displaces dx dy f) {u : ElementId}
    (hu : u.index < tree.size) :
    sizeWrites (tree.map f) u = sizeWrites tree u := by
  have hmoved := ElementTree.isMoved_boundsAt h hu
  unfold sizeWrites
  rw [ElementTree.parentId?_map, hmoved.width, hmoved.height]

/-- The distance to the top of the parent does not change, since both
moved. -/
theorem offset?_map (h : Layer.Displaces dx dy f)
    (hwell : tree.WellFormed root) {u p : ElementId}
    (hp : tree.parentId? u = some p) :
    offset? (tree.map f) u p = offset? tree u p := by
  obtain ⟨hu, hparent⟩ := hwell.lt_size_of_parentId? hp
  have htop := (ElementTree.isMoved_boundsAt h hu).top
  have htopParent := (ElementTree.isMoved_boundsAt h hparent).top
  have hoffset : ((tree.map f).boundsAt u).top
        - ((tree.map f).boundsAt p).top
      = (tree.boundsAt u).top - (tree.boundsAt p).top := by
    omega
  unfold offset?
  rw [hoffset, ElementTree.prevInFlow?_map h hwell hp]

/-- What padding leaves of a height does not change when all is moved
alike. -/
theorem paddedHeight?_map (h : Layer.Displaces dx dy f) {p : ElementId}
    (hp : p.index < tree.size) (offset : Int) :
    paddedHeight? (tree.map f) p offset = paddedHeight? tree p offset := by
  unfold paddedHeight? baseHeight?
  rw [ElementTree.isPinned_map, ElementTree.parentId?_map,
    ElementTree.valueOf?_map, (ElementTree.isMoved_boundsAt h hp).height]

theorem spacingWrites_map (h : Layer.Displaces dx dy f) {u next : ElementId}
    (hu : u.index < tree.size) (hnext : next.index < tree.size) :
    spacingWrites (tree.map f) u next = spacingWrites tree u next := by
  have hown := ElementTree.isMoved_boundsAt h hu
  have hpeer := ElementTree.isMoved_boundsAt h hnext
  have habove : ((tree.map f).boundsAt next).top
        - ((tree.map f).boundsAt u).bottom
      = (tree.boundsAt next).top - (tree.boundsAt u).bottom := by
    rw [hpeer.top, hown.bottom]
    omega
  have hbetween : ((tree.map f).boundsAt next).left
        - ((tree.map f).boundsAt u).right
      = (tree.boundsAt next).left - (tree.boundsAt u).right := by
    rw [hpeer.left, hown.right]
    omega
  have hlevel : ((tree.map f).boundsAt next).top
        = ((tree.map f).boundsAt u).top
      ↔ (tree.boundsAt next).top = (tree.boundsAt u).top := by
    rw [hpeer.top, hown.top]
    omega
  unfold spacingWrites above? level? between?
  simp only [habove, hbetween, hlevel]

/-- What a visit infers inside a normal layer that was moved. -/
theorem boxWrites_map (h : Layer.Displaces dx dy f)
    (hwell : tree.WellFormed root) {u p : ElementId}
    (hp : tree.parentId? u = some p) :
    boxWrites (tree.map f) u p = boxWrites tree u p := by
  obtain ⟨hu, hparent⟩ := hwell.lt_size_of_parentId? hp
  have hspacing : ∀ next, tree.nextInFlow? u = some next →
      spacingWrites (tree.map f) u next = spacingWrites tree u next := by
    intro next hnext
    have hpeer := ((hwell.nextInFlow?_iff_prevInFlow? hp).1 hnext).1
    exact spacingWrites_map h hu (hwell.lt_size_of_parentId? hpeer).1
  unfold boxWrites centreWrites paddingWrites
  rw [(ElementTree.isMoved_boundsAt h hparent).centred?
      (ElementTree.isMoved_boundsAt h hu),
    offset?_map h hwell hp, funext (paddedHeight?_map h hparent),
    ElementTree.nextInFlow?_map h hwell hp]
  cases hnext : tree.nextInFlow? u with
  | none => simp only [Option.toList_none, List.flatMap_nil]
  | some next =>
      simp only [Option.toList_some, List.flatMap_singleton,
        hspacing next hnext]

/-- A visit of a design that was moved infers the same. -/
theorem visitWrites_map (h : Layer.Displaces dx dy f)
    (hwell : tree.WellFormed root) {u : ElementId}
    (hu : u.index < tree.size) :
    visitWrites (tree.map f) u = visitWrites tree u := by
  unfold visitWrites
  rw [colour?_map h, sizeWrites_map h hu,
    ElementTree.normalParent?_map h]
  cases hp : tree.normalParent? u with
  | none => simp only [Option.toList_none, List.flatMap_nil]
  | some p =>
      have hparent := ElementTree.parentId?_of_normalParent? hp
      simp only [Option.toList_some, List.flatMap_singleton,
        boxWrites_map h hwell hparent]

end Layout

end LayerPage
