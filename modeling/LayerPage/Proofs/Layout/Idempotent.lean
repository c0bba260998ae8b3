/-
Layout a second time. A pass over a tree that was laid out already changes
nothing (`layout_idempotent`).

# Why

A pass carries out inferences that are known beforehand
(`run_eq_carryOut`), and the same inferences a second time change nothing,
since the last word on each property is the same again
(`carryOut_carryOut`). So it is enough that the second pass makes the
inferences of the first one (`Restyled.visitWrites`).

They are read off places, kinds and pins, which layout does not touch, but
for one value: the height that is read back where a parent makes room for
its first child. Everywhere below the root the parent's own visit has just
written it anew, so that the room is taken from the full height again, and
not from what the first pass left of it. The root is never given a height;
there it matters that a built tree declares none that is not pinned
(`valueOf?_pass_root`).
-/
import LayerPage.Proofs.Layout.Extent
import LayerPage.Proofs.Layout.Order

namespace LayerPage

variable {α : Type}

-- =========================================================== inferences

namespace Layout

/-- The same inferences a second time change nothing. -/
theorem carryOut_carryOut (tree : ElementTree α) (writes : List Write) :
    carryOut (carryOut tree writes) writes = carryOut tree writes := by
  rw [← carryOut_append]
  apply carryOut_congr
  intro id k
  rw [latest?_append, Option.or_self]

/-- Inferences for attached elements keep a tree well-formed. -/
theorem wellFormed_carryOut {tree : ElementTree α} {root : ElementId}
    (hwell : tree.WellFormed root) {writes : List Write}
    (h : ∀ w ∈ writes, tree.isAttached w.target = true) :
    (carryOut tree writes).WellFormed root := by
  induction writes generalizing tree with
  | nil => exact hwell
  | cons w rest ih =>
      have hpins : ∀ (rule : StyleRule) k,
          (rule.infer w.property w.value).pin? k = rule.pin? k :=
        fun _ _ => StyleRule.pin?_infer ..
      refine ih (hwell.modifyStyle (h w List.mem_cons_self) hpins) ?_
      intro v hv
      rw [(ElementTree.restyled_modifyStyle hpins ..).isAttached]
      exact h v (List.mem_cons_of_mem _ hv)

end Layout

variable [Layer α]

namespace ElementTree

/-- The height that is found at an attached element is the same in a
restyled tree, if the root declares the same. -/
theorem Restyled.baseHeight? {t t' : ElementTree α} (h : t.Restyled t')
    {root : ElementId} (hwell : t.WellFormed root)
    (hroot : t'.valueOf? root "height" = t.valueOf? root "height")
    {id : ElementId} (hid : t.isAttached id = true) :
    Layout.baseHeight? t' id = Layout.baseHeight? t id := by
  unfold Layout.baseHeight?
  rw [h.parentId?, h.boundsAt]
  split
  · next hparent =>
    rw [hwell.eq_root_of_parentId? hid hparent, hroot]
  · rfl

theorem Restyled.colour? {t t' : ElementTree α} (h : t.Restyled t')
    (id : ElementId) : Layout.colour? t' id = Layout.colour? t id := by
  have hsample := h.bind_get? (f := fun e => Layer.sample? e.layer 0 0)
    (fun _ _ => rfl) id
  unfold Layout.colour?
  rw [hsample]

theorem Restyled.sizeWrites {t t' : ElementTree α} (h : t.Restyled t')
    (id : ElementId) :
    Layout.sizeWrites t' id = Layout.sizeWrites t id := by
  unfold Layout.sizeWrites
  rw [h.parentId?, h.boundsAt]

theorem Restyled.offset? {t t' : ElementTree α} (h : t.Restyled t')
    (id parent : ElementId) :
    Layout.offset? t' id parent = Layout.offset? t id parent := by
  unfold Layout.offset?
  rw [h.boundsAt, h.boundsAt, h.prevInFlow?]

/-- What is offered to peers is read off the layers alone. -/
theorem Restyled.spacingWrites {t t' : ElementTree α} (h : t.Restyled t')
    (id : ElementId) :
    Layout.spacingWrites t' id = Layout.spacingWrites t id := by
  funext next
  unfold Layout.spacingWrites Layout.above? Layout.level? Layout.between?
  rw [h.boundsAt, h.boundsAt]

/-- Padding looks at one value, the height before anything is padded. Where
that is the same, so is the padding. -/
theorem Restyled.paddingWrites {t t' : ElementTree α} (h : t.Restyled t')
    {id parent : ElementId}
    (hheight : Layout.baseHeight? t' parent
      = Layout.baseHeight? t parent) :
    Layout.paddingWrites t' id parent
      = Layout.paddingWrites t id parent := by
  have hpadded : Layout.paddedHeight? t' parent
      = Layout.paddedHeight? t parent := by
    funext offset
    unfold Layout.paddedHeight?
    rw [h.isPinned, hheight]
  unfold Layout.paddingWrites
  rw [h.offset?, hpadded]

theorem Restyled.boxWrites {t t' : ElementTree α} (h : t.Restyled t')
    {id parent : ElementId}
    (hheight : Layout.baseHeight? t' parent
      = Layout.baseHeight? t parent) :
    Layout.boxWrites t' id parent = Layout.boxWrites t id parent := by
  unfold Layout.boxWrites
  rw [h.paddingWrites hheight, h.spacingWrites, h.boundsAt, h.boundsAt,
    h.nextInFlow?]

/-- A visit infers the same in a restyled tree, if the root declares the
same height. -/
theorem Restyled.visitWrites {t t' : ElementTree α} (h : t.Restyled t')
    {root : ElementId} (hwell : t.WellFormed root)
    (hroot : t'.valueOf? root "height" = t.valueOf? root "height")
    (id : ElementId) :
    Layout.visitWrites t' id = Layout.visitWrites t id := by
  have hbox : (t.normalParent? id).toList.flatMap (Layout.boxWrites t' id)
      = (t.normalParent? id).toList.flatMap (Layout.boxWrites t id) := by
    cases hp : t.normalParent? id with
    | none => rw [Option.toList_none, List.flatMap_nil, List.flatMap_nil]
    | some p =>
        have hparent := parentId?_of_normalParent? hp
        have hheight := h.baseHeight? hwell hroot
          (hwell.isAttached_of_parentId? hparent).2
        rw [Option.toList_some, List.flatMap_singleton,
          List.flatMap_singleton, h.boxWrites hheight]
  unfold Layout.visitWrites
  rw [h.colour?, h.sizeWrites, h.normalParent?, hbox]

end ElementTree

-- ============================================================== passes

namespace Layout

/-- One pass of layout over all that is below an element. -/
def pass (tree : ElementTree α) (root : ElementId) : ElementTree α :=
  (tree.descendants root).foldl inferStyle tree

/-- The inferences of a pass. -/
def passWrites (tree : ElementTree α) (root : ElementId) : List Write :=
  (tree.descendants root).flatMap (visitWrites tree)

variable {tree : ElementTree α} {root : ElementId}

/-- A pass is its writes. -/
theorem pass_eq_carryOut (hwell : tree.WellFormed root) :
    pass tree root = carryOut tree (passWrites tree root) :=
  run_eq_carryOut hwell (visitOrder_descendants hwell)

/-- A pass changes no pins, and nothing but rules. -/
theorem restyled_pass (hwell : tree.WellFormed root) :
    tree.Restyled (pass tree root) := by
  rw [pass_eq_carryOut hwell]
  exact restyled_carryOut ..

/-- A pass keeps a tree well-formed. -/
theorem wellFormed_pass (hwell : tree.WellFormed root) :
    (pass tree root).WellFormed root := by
  rw [pass_eq_carryOut hwell]
  apply wellFormed_carryOut hwell
  intro w hw
  obtain ⟨u, hu, hvisit⟩ := List.mem_flatMap.1 hw
  rw [hwell.descendants_root, ElementTree.mem_attached_iff,
    ← ElementTree.isAttached_iff] at hu
  exact isAttached_of_mem_visitWrites hwell hu hvisit

/-- A pass leaves the height alone that the root declares by hand, and
gives it none if it declares none. -/
theorem valueOf?_pass_root (hwell : tree.WellFormed root)
    (hroot : tree.isPinned root "height" = false →
      tree.valueOf? root "height" = none) :
    (pass tree root).valueOf? root "height"
      = tree.valueOf? root "height" := by
  obtain ⟨e, hget, hparent, hattached⟩ := hwell.root_get
  cases hpin : tree.isPinned root "height" with
  | true => exact (restyled_pass hwell).valueOf?_of_fixed fun _ => hpin
  | false =>
      have hid : tree.isAttached root = true :=
        ElementTree.isAttached_iff.2 ⟨e, hget, hattached⟩
      have hnone : tree.parentId? root = none := by
        rw [ElementTree.parentId?, hget, Option.bind_some, hparent]
      have hvalue : Geometry.value? tree root "height" = none :=
        if_pos hnone
      have houtcome := outcome hwell (visitOrder_descendants hwell) hid hpin
        (hroot hpin)
      rw [hroot hpin, ← hvalue]
      exact houtcome

/-- A second pass changes nothing, if the root declares no height or
declares it by hand. -/
theorem pass_pass (hwell : tree.WellFormed root)
    (hroot : tree.isPinned root "height" = false →
      tree.valueOf? root "height" = none) :
    pass (pass tree root) root = pass tree root := by
  have hrestyled := restyled_pass hwell
  have hwrites : passWrites (pass tree root) root
      = passWrites tree root := by
    unfold passWrites
    rw [hrestyled.descendants]
    congr 1
    funext id
    exact hrestyled.visitWrites hwell (valueOf?_pass_root hwell hroot) id
  calc pass (pass tree root) root
      = carryOut (pass tree root) (passWrites (pass tree root) root) :=
        pass_eq_carryOut (wellFormed_pass hwell)
    _ = carryOut (carryOut tree (passWrites tree root))
          (passWrites tree root) := by
        rw [hwrites, pass_eq_carryOut hwell]
    _ = carryOut tree (passWrites tree root) := carryOut_carryOut ..
    _ = pass tree root := (pass_eq_carryOut hwell).symm

end Layout

-- ========================================================= built trees

/-- Layout of a built tree a second time: nothing changes, and every height
that is not pinned is the layer's, from which the room above the first
child was taken once. -/
theorem layout_idempotent {root : α} {built : BuiltTree α}
    (h : BuiltTree.build Metadata.builtin root = .ok built) :
    Layout.pass (Layout.pass built.tree built.root) built.root
        = Layout.pass built.tree built.root
      ∧ ∀ id, built.tree.isAttached id = true →
        built.tree.isPinned id "height" = false →
        (Layout.pass (Layout.pass built.tree built.root)
          built.root).valueOf? id "height"
          = Geometry.height? built.tree id := by
  obtain ⟨below, -, hbuilt⟩ :=
    Construction.builtFrom Metadata.decorates_builtin h
  have hwell := hbuilt.wellFormed Metadata.decorates_builtin
  -- before layout nothing but pins is declared
  have hplain : ∀ id, built.tree.isAttached id = true →
      built.tree.isPinned id "height" = false →
      built.tree.valueOf? id "height" = none := by
    intro id hid hfree
    obtain ⟨e, hget, hattached⟩ := ElementTree.isAttached_iff.1 hid
    rw [ElementTree.isPinned, hget] at hfree
    rw [ElementTree.valueOf?, hget]
    exact hbuilt.handWritten hget hattached "height" hfree
  have hroot : built.tree.isAttached built.root = true := by
    obtain ⟨e, hget, -, hattached⟩ := hwell.root_get
    exact ElementTree.isAttached_iff.2 ⟨e, hget, hattached⟩
  have hsame := Layout.pass_pass hwell (hplain built.root hroot)
  refine ⟨hsame, fun id hid hfree => ?_⟩
  rw [hsame]
  exact Layout.outcome hwell (Layout.visitOrder_descendants hwell) hid hfree
    (hplain id hid hfree)

/-- A page with a section whose paragraph begins ten pixels below its
top. -/
def indentedPage : ManifestLayer where
  name := "<body>"
  bounds := ⟨0, 0, 960, 600⟩
  kind := .normal
  pixels := .solid ⟨255, 255, 255, 255⟩
  children :=
    [{ ManifestLayer.solid "<section>" ⟨0, 0, 960, 100⟩ ⟨0, 0, 0, 255⟩ with
      children := [.solid "<p>" ⟨0, 10, 960, 50⟩ ⟨4, 5, 6, 255⟩] }]

/-- Ten pixels are taken from the height of the section, by two passes as
by one. -/
theorem indentedPage_idempotent :
    ∃ built, BuiltTree.build Metadata.builtin indentedPage = .ok built
      ∧ Layout.pass (Layout.pass built.tree built.root) built.root
        = Layout.pass built.tree built.root
      ∧ (Layout.pass (Layout.pass built.tree built.root) built.root).valueOf?
          ⟨1⟩ "height" = some "90px" := by
  obtain ⟨built, hbuild⟩ : ∃ built,
    BuiltTree.build Metadata.builtin indentedPage = .ok built := ⟨_, rfl⟩
  have hsection : (BuiltTree.build Metadata.builtin indentedPage).toOption.map
      (fun built => (built.tree.isAttached ⟨1⟩,
        built.tree.isPinned ⟨1⟩ "height", Geometry.height? built.tree ⟨1⟩))
      = some (true, false, some "90px") := by
    decide +kernel
  rw [hbuild] at hsection
  obtain ⟨hid, hrest⟩ := Prod.mk.inj (Option.some.inj hsection)
  obtain ⟨hfree, hheight⟩ := Prod.mk.inj hrest
  obtain ⟨hsame, hvalue⟩ := layout_idempotent hbuild
  refine ⟨built, hbuild, hsame, ?_⟩
  rw [hvalue ⟨1⟩ hid hfree]
  exact hheight

end LayerPage
