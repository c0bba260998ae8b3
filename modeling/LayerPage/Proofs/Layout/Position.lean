/-
Where a finished page puts its boxes. A browser stacks the children of an
element: each starts where the one above it ends, after a margin, and the
first one below the padding of the element. Level children float beside
each other. Adding up what the page declares gives back the places of the
layers, from top to bottom (`convert_reproduces_stacks`) and within a row
from left to right (`convert_reproduces_rows`).

# Steps and runs

A finished page follows geometry (`FollowsGeometry`), so the margin
between two neighbours in flow is the distance of their layers: that is
one step, `topMargin_of_next` down a stack and `rightMargin_of_next`
along a row. Who wrote the margin, and when, was settled with the outcome
of layout. A sum of steps is a distance of any two, by induction on the
position in flow (`stack_offset`, `row_offset`).

A margin that is not declared counts for nothing, and that is right
because it is left out only where the distance is zero.
-/
import Mathlib.Algebra.BigOperators.Group.List.Basic
import Mathlib.Algebra.Ring.Int.Defs
import Mathlib.Data.List.Chain
import LayerPage.Proofs.Conversion

namespace LayerPage

variable {α : Type} [Layer α]

open Length (px parsePx?)

-- ======================================================== reading lengths

namespace ElementTree

/-- The length that a property of an element has. A property without a
value counts for nothing. -/
def lengthOf? (tree : ElementTree α) (id : ElementId) (property : String) :
    Option Int :=
  match tree.valueOf? id property with
  | none => some 0
  | some text => parsePx? text

/-- The length of the margin on the right of an element. A margin that is
left to the browser counts for nothing, too. -/
def rightMargin? (tree : ElementTree α) (id : ElementId) : Option Int :=
  if tree.valueOf? id "margin-right" = some "auto" then some 0
  else tree.lengthOf? id "margin-right"

omit [Layer α] in
/-- A distance that is declared where it is not zero is read as it is. -/
theorem lengthOf?_of_distance {tree : ElementTree α} {id : ElementId}
    {property : String} {distance : Int} (hdistance : 0 ≤ distance)
    (hfits : Text.fitsSigned Length.bits distance = true)
    (hvalue : tree.valueOf? id property
      = if distance > 0 then some (px distance) else none) :
    tree.lengthOf? id property = some distance := by
  unfold lengthOf?
  rw [hvalue]
  by_cases hpos : distance > 0
  · rw [if_pos hpos]
    exact Length.parsePx?_px hfits
  · have hzero : distance = 0 := by omega
    rw [if_neg hpos, hzero]

end ElementTree

-- ===================================================== finished pages

/-- Whether a well-formed tree follows geometry: what no name pins has the
value that the geometry of the tree gives it. -/
structure ElementTree.FollowsGeometry (tree : ElementTree α)
    (root : ElementId) : Prop where
  wellFormed : tree.WellFormed root
  value : ∀ id k, tree.isAttached id = true → k ∈ Layout.properties →
    tree.isPinned id k = false →
    tree.valueOf? id k = Geometry.value? tree id k

omit [Layer α] in
/-- The reset of the root is carried out like what layout infers. -/
theorem Converter.modifyStyle_resetRoot (tree : ElementTree α)
    (root : ElementId) :
    tree.modifyStyle root resetRoot
      = Layout.carryOut tree
          [⟨root, "margin", "0px"⟩, ⟨root, "padding", "0px"⟩] :=
  (ElementTree.modify_modify tree root
    (·.modifyStyle (·.infer "margin" "0px"))
    (·.modifyStyle (·.infer "padding" "0px"))).symm

omit [Layer α] in
/-- The reset of the root declares margin and padding only. -/
theorem Converter.valueOf?_resetRoot {tree : ElementTree α}
    {root id : ElementId} {k : String} (hid : id.index < tree.size)
    (hmargin : "margin" ≠ k) (hpadding : "padding" ≠ k)
    (hfree : tree.isPinned id k = false) :
    (tree.modifyStyle root resetRoot).valueOf? id k
      = tree.valueOf? id k := by
  rw [modifyStyle_resetRoot, Layout.valueOf?_carryOut hid hfree]
  simp [Layout.latest?, hmargin, hpadding]

/-- Before layout, what is not pinned is only declared by the reset. -/
theorem Conversion.ComesFrom.valueOf?_reset {conversion : Conversion α}
    {source : LayerDocument α} {body : α} {below : Forest α}
    {built : BuiltTree α}
    (h : conversion.ComesFrom source body below built) {id : ElementId}
    {k : String} (hid : built.tree.isAttached id = true)
    (hfree : built.tree.isPinned id k = false)
    (hmargin : "margin" ≠ k) (hpadding : "padding" ≠ k) :
    built.reset.valueOf? id k = none := by
  obtain ⟨e, hget, hattached⟩ := ElementTree.isAttached_iff.1 hid
  have hlt := ElementTree.get?_isSome_iff.1 ⟨e, hget⟩
  unfold BuiltTree.reset
  rw [Converter.valueOf?_resetRoot hlt hmargin hpadding hfree,
    ElementTree.valueOf?, hget, Option.bind_some]
  apply h.builtFrom.handWritten hget hattached
  rw [ElementTree.isPinned, hget] at hfree
  exact hfree

/-- Nothing after layout declares what layout knows. -/
theorem Conversion.ComesFrom.followsGeometry {conversion : Conversion α}
    {source : LayerDocument α} {body : α} {below : Forest α}
    {built : BuiltTree α}
    (h : conversion.ComesFrom source body below built) :
    conversion.page.tree.FollowsGeometry conversion.page.root := by
  refine ⟨h.wellFormed, ?_⟩
  intro id k hid hk hfree
  have hknown : ∀ other, other ∉ Layout.properties → other ≠ k := by
    intro other hother heq
    rw [heq] at hother
    exact hother hk
  have hreset : built.reset.WellFormed built.root :=
    h.builtFrom.reset_wellFormed
  have hvisits := Layout.visitOrder_descendants hreset
  have hrestyled := h.restyled
  rw [hrestyled.isAttached] at hid
  rw [hrestyled.isPinned] at hfree
  -- what was built has pins only, and the reset adds none of these
  have hplain : built.reset.valueOf? id k = none :=
    h.valueOf?_reset hid hfree (hknown _ (by decide)) (hknown _ (by decide))
  have hlaidOut : built.laidOut.valueOf? id k
      = Geometry.value? built.reset id k := by
    unfold BuiltTree.laidOut BuiltTree.visits
    rw [← Layout.run_eq_carryOut hreset hvisits]
    apply Layout.outcome hreset hvisits _ _ hplain
    · rw [built.restyled_reset.isAttached]
      exact hid
    · rw [built.restyled_reset.isPinned]
      exact hfree
  have hoverflow : k ≠ "overflow" := (hknown _ (by decide)).symm
  rw [hrestyled.value?, ← built.restyled_reset.value?, ← hlaidOut, h.tree,
    Heuristic.valueOf?_hidings hoverflow, Heuristic.valueOf?_selectAll]

-- ================================================================= stacks

namespace Geometry

/-- Whether the children of an element lie below each other: in flow, each
starts below the top of the one before it and not above its bottom, and
the first one not above the top of the element. -/
structure Stacked (tree : ElementTree α) (p : ElementId) : Prop where
  below : (tree.flow p).IsChain fun a b =>
    (tree.boundsAt a).top < (tree.boundsAt b).top
      ∧ (tree.boundsAt a).bottom ≤ (tree.boundsAt b).top
  inside : ∀ first, (tree.flow p).head? = some first →
    (tree.boundsAt p).top ≤ (tree.boundsAt first).top

/-- What is between the top of an element and its first child is a distance
of two layers. -/
theorem exists_first_of_headroom? {tree : ElementTree α} {id : ElementId}
    {room : Int} (h : headroom? tree id = some room) :
    ∃ first, first? tree id = some first ∧ 0 < room
      ∧ room = (tree.boundsAt first).top - (tree.boundsAt id).top := by
  obtain ⟨first, hfirst, hsome⟩ := Option.bind_eq_some_iff.1 h
  obtain ⟨hpos, heq⟩ := Option.ite_none_right_eq_some.1 hsome
  have hroom := (Option.some.inj heq).symm
  refine ⟨first, hfirst, ?_, hroom⟩
  rw [hroom]
  exact hpos

end Geometry

/-- A sum goes on by its next term. -/
private theorem sum_map_take_succ {β : Type} (f : β → Int) {l : List β}
    {i : Nat} (hi : i < l.length) :
    ((l.take (i + 1)).map f).sum = ((l.take i).map f).sum + f l[i] := by
  have hmap : i < (l.map f).length := by rwa [List.length_map]
  rw [List.map_take, List.map_take, List.sum_take_succ _ i hmap,
    List.getElem_map]

namespace ElementTree.FollowsGeometry

variable {tree : ElementTree α} {root : ElementId}

/-- An element of a flow is attached, and so is the element whose flow it
is. -/
theorem isAttached_of_mem_flow (h : tree.FollowsGeometry root)
    {c p : ElementId} (hc : c ∈ tree.flow p) :
    tree.isAttached c = true ∧ tree.isAttached p = true :=
  h.wellFormed.isAttached_of_parentId? (h.wellFormed.mem_flow_iff.1 hc)

/-- The padding of an element is the distance of its first child. -/
theorem topPadding_of_first (h : tree.FollowsGeometry root)
    {p first : ElementId} (hp : tree.isNormal p = true)
    (hpad : tree.isPinned p "padding-top" = false)
    (hfirst : (tree.flow p).head? = some first)
    (hinside : (tree.boundsAt p).top ≤ (tree.boundsAt first).top) :
    tree.lengthOf? p "padding-top"
      = some ((tree.boundsAt first).top - (tree.boundsAt p).top) := by
  have hattached := (h.isAttached_of_mem_flow (List.mem_of_head? hfirst)).2
  apply ElementTree.lengthOf?_of_distance
  · omega
  · exact Length.fitsSigned_sub ..
  · rw [h.value p "padding-top" hattached (by decide) hpad]
    show Geometry.paddingTop? tree p = _
    unfold Geometry.paddingTop? Geometry.headroom? Geometry.first?
    rw [if_pos hp, hfirst, Option.bind_some]
    simp only [apply_ite (Option.map px), Option.map_some, Option.map_none]

/-- The padding of an element whose first child is not above its top is a
length. -/
theorem exists_topPadding (h : tree.FollowsGeometry root) {p : ElementId}
    (hattached : tree.isAttached p = true) (hp : tree.isNormal p = true)
    (hstacked : Geometry.Stacked tree p)
    (hpad : tree.isPinned p "padding-top" = false) :
    ∃ padding, tree.lengthOf? p "padding-top" = some padding := by
  cases hfirst : (tree.flow p).head? with
  | some first =>
      exact ⟨_, h.topPadding_of_first hp hpad hfirst
        (hstacked.inside first hfirst)⟩
  | none =>
      refine ⟨0, ?_⟩
      have hvalue : tree.valueOf? p "padding-top"
          = Geometry.paddingTop? tree p :=
        h.value p "padding-top" hattached (by decide) hpad
      have hnone : Geometry.paddingTop? tree p = none := by
        unfold Geometry.paddingTop? Geometry.headroom? Geometry.first?
        rw [if_pos hp, hfirst]
        rfl
      unfold ElementTree.lengthOf?
      rw [hvalue, hnone]

/-- One step down a stack: the margin above an element is the distance
from the bottom of the one before it. -/
theorem topMargin_of_next (h : tree.FollowsGeometry root)
    {p a b : ElementId} (hp : tree.isNormal p = true)
    (hnext : [a, b] <:+: tree.flow p)
    (hfree : tree.isPinned b "margin-top" = false)
    (hbelow : (tree.boundsAt a).bottom ≤ (tree.boundsAt b).top) :
    tree.lengthOf? b "margin-top"
      = some ((tree.boundsAt b).top - (tree.boundsAt a).bottom) := by
  have hb : b ∈ tree.flow p := hnext.subset (by simp)
  have hparent := h.wellFormed.normalParent?_of_mem_flow hp hb
  have hprevious :=
    (Geometry.previous?_eq_some_iff_infix h.wellFormed hparent).2 hnext
  apply ElementTree.lengthOf?_of_distance
  · omega
  · exact Length.fitsSigned_sub_add ..
  · rw [h.value b "margin-top" (h.isAttached_of_mem_flow hb).1 (by decide)
      hfree]
    show Geometry.marginTop? tree b = _
    unfold Geometry.marginTop?
    rw [hprevious, Option.bind_some]

/-- Nothing is above the first child, and so there is no margin. -/
theorem topMargin_of_first (h : tree.FollowsGeometry root)
    {p first : ElementId} (hp : tree.isNormal p = true)
    (hfirst : (tree.flow p).head? = some first)
    (hfree : tree.isPinned first "margin-top" = false) :
    tree.lengthOf? first "margin-top" = some 0 := by
  have hmem := List.mem_of_head? hfirst
  have hparent := h.wellFormed.normalParent?_of_mem_flow hp hmem
  have hprevious : Geometry.previous? tree first = none := by
    rw [Geometry.previous?_of_normalParent? h.wellFormed hparent,
      h.wellFormed.prevInFlow?_eq_none_iff
        (ElementTree.parentId?_of_normalParent? hparent)]
    exact hfirst
  unfold ElementTree.lengthOf?
  rw [h.value first "margin-top" (h.isAttached_of_mem_flow hmem).1
    (by decide) hfree]
  show (match Geometry.marginTop? tree first with
    | none => some 0 | some text => parsePx? text) = some 0
  unfold Geometry.marginTop?
  rw [hprevious, Option.bind_none]

/-- Down a stack to the child at some position: the padding, the heights
of the children above it and the margins between them are its distance
from the top. -/
theorem stack_offset (h : tree.FollowsGeometry root) {p : ElementId}
    (hp : tree.isNormal p = true) (hstacked : Geometry.Stacked tree p)
    (hpad : tree.isPinned p "padding-top" = false)
    (hfree : ∀ c ∈ tree.flow p, tree.isPinned c "margin-top" = false)
    {padding : Int} (hpadding : tree.lengthOf? p "padding-top" = some padding)
    {margin : ElementId → Int}
    (hmargin : ∀ c ∈ tree.flow p,
      tree.lengthOf? c "margin-top" = some (margin c))
    (i : Nat) (hi : i < (tree.flow p).length) :
    padding
        + (((tree.flow p).take i).map fun c =>
            (tree.boundsAt c).height.toInt).sum
        + (((tree.flow p).tail.take i).map margin).sum
      = (tree.boundsAt (tree.flow p)[i]).top - (tree.boundsAt p).top := by
  induction i with
  | zero =>
      -- above the first child there is the padding alone
      have hfirst : (tree.flow p).head? = some (tree.flow p)[0] := by
        rw [List.head?_eq_getElem?, List.getElem?_eq_getElem hi]
      have hread := h.topPadding_of_first hp hpad hfirst
        (hstacked.inside _ hfirst)
      rw [hpadding] at hread
      have heq := Option.some.inj hread
      simpa using heq
  | succ i ih =>
      have hprevious : i < (tree.flow p).length := by omega
      have hchain := List.isChain_iff_getElem.1 hstacked.below i hi
      have hnext : [(tree.flow p)[i], (tree.flow p)[i + 1]]
          <:+: tree.flow p := ElementTree.pair_infix hi
      have hmem : (tree.flow p)[i + 1] ∈ tree.flow p :=
        List.getElem_mem hi
      have hread := h.topMargin_of_next hp hnext (hfree _ hmem) hchain.2
      rw [hmargin _ hmem] at hread
      have heq := Option.some.inj hread
      have htail : i < (tree.flow p).tail.length := by
        rw [List.length_tail]
        omega
      have hbottom : (tree.boundsAt (tree.flow p)[i]).bottom
          = (tree.boundsAt (tree.flow p)[i]).top
            + (tree.boundsAt (tree.flow p)[i]).height.toInt := rfl
      -- one more height above, and one more margin
      have hrest := ih hprevious
      rw [sum_map_take_succ _ hprevious, sum_map_take_succ _ htail,
        List.getElem_tail]
      omega

/-- The margins above the children of a stack are all lengths. -/
theorem exists_topMargin (h : tree.FollowsGeometry root) {p : ElementId}
    (hp : tree.isNormal p = true) (hstacked : Geometry.Stacked tree p)
    (hfree : ∀ c ∈ tree.flow p, tree.isPinned c "margin-top" = false)
    {c : ElementId} (hc : c ∈ tree.flow p) :
    ∃ margin, tree.lengthOf? c "margin-top" = some margin := by
  obtain ⟨i, hi, hget⟩ := List.getElem_of_mem hc
  cases i with
  | zero =>
      have hfirst : (tree.flow p).head? = some c := by
        rw [List.head?_eq_getElem?, List.getElem?_eq_getElem hi, hget]
      exact ⟨0, h.topMargin_of_first hp hfirst (hfree c hc)⟩
  | succ i =>
      have hchain := List.isChain_iff_getElem.1 hstacked.below i hi
      have hnext := ElementTree.pair_infix hi
      rw [hget] at hchain hnext
      exact ⟨_, h.topMargin_of_next hp hnext (hfree c hc) hchain.2⟩

/-- The height of an element is that of its layer, less the padding. -/
theorem valueOf?_height (h : tree.FollowsGeometry root) {c p : ElementId}
    (hc : c ∈ tree.flow p) (hpad : tree.isPinned c "padding-top" = false)
    (hheight : tree.isPinned c "height" = false) :
    tree.valueOf? c "height" = some (px
      (((Geometry.headroom? tree c).map fun room =>
        max ((tree.boundsAt c).height.toInt - room) 0).getD
          (tree.boundsAt c).height.toInt)) := by
  rw [h.value c "height" (h.isAttached_of_mem_flow hc).1 (by decide) hheight]
  show Geometry.height? tree c = _
  unfold Geometry.height?
  rw [h.wellFormed.mem_flow_iff.1 hc, hpad]
  rfl

/-- Padding takes from the height of an element what it adds to it: both
together are as high as the layer, if the first child does not start below
its bottom. -/
theorem topPadding_add_height (h : tree.FollowsGeometry root)
    {c p : ElementId} (hc : c ∈ tree.flow p)
    (hpad : tree.isPinned c "padding-top" = false)
    (hheight : tree.isPinned c "height" = false)
    (hroom : ∀ first, Geometry.first? tree c = some first →
      (tree.boundsAt first).top - (tree.boundsAt c).top
        ≤ (tree.boundsAt c).height.toInt) :
    ∃ padding height, tree.lengthOf? c "padding-top" = some padding
      ∧ (tree.valueOf? c "height").bind parsePx? = some height
      ∧ padding + height = (tree.boundsAt c).height.toInt := by
  have hpadding : tree.valueOf? c "padding-top"
      = (Geometry.headroom? tree c).map px :=
    h.value c "padding-top" (h.isAttached_of_mem_flow hc).1 (by decide) hpad
  have hvalue := h.valueOf?_height hc hpad hheight
  have hown := Length.fitsSigned_toInt (tree.boundsAt c).height
  unfold ElementTree.lengthOf?
  -- padding and height are inferred from one distance, if there is one
  cases hhead : Geometry.headroom? tree c with
  | none =>
      rw [hhead, Option.map_none] at hpadding
      rw [hhead, Option.map_none, Option.getD_none] at hvalue
      rw [hpadding, hvalue, Option.bind_some, Length.parsePx?_px hown]
      exact ⟨0, _, rfl, rfl, Int.zero_add _⟩
  | some room =>
      obtain ⟨first, hfirst, hpos, hdistance⟩ :=
        Geometry.exists_first_of_headroom? hhead
      have hless : room ≤ (tree.boundsAt c).height.toInt := by
        rw [hdistance]
        exact hroom first hfirst
      have hfits : Text.fitsSigned Length.bits room = true := by
        rw [hdistance]
        exact Length.fitsSigned_sub ..
      have hrest : Text.fitsSigned Length.bits
          ((tree.boundsAt c).height.toInt - room) = true := by
        rw [Length.fitsSigned_iff] at hown hfits ⊢
        omega
      rw [hhead, Option.map_some] at hpadding
      rw [hhead, Option.map_some, Option.getD_some,
        Int.max_eq_left (by omega)] at hvalue
      rw [hpadding, hvalue, Option.bind_some, Length.parsePx?_px hrest]
      exact ⟨_, _, Length.parsePx?_px hfits, rfl, by omega⟩

end ElementTree.FollowsGeometry

-- ========================================================= a sample page

/-- Children that are strictly in order, none at the place of another one,
are in flow order. -/
theorem ElementTree.flow_eq_of_pairwise {tree : ElementTree α}
    {parent : ElementId} {l : List ElementId}
    (hperm : l.Perm (tree.childrenOf parent))
    (hsorted : l.Pairwise fun a b =>
      flowLe (tree.boundsAt b) (tree.boundsAt a) = false) :
    tree.flow parent = l := by
  have hflow : (tree.flow parent).Perm l :=
    (List.mergeSort_perm ..).trans hperm.symm
  let Apart (a b : ElementId) : Prop :=
    ¬(flowLe (tree.boundsAt a) (tree.boundsAt b) = true
      ∧ flowLe (tree.boundsAt b) (tree.boundsAt a) = true)
  have hsymm : Std.Symm Apart := ⟨fun a b h hback => h hback.symm⟩
  have hapart : l.Pairwise Apart := by
    refine hsorted.imp ?_
    intro a b hback h
    rw [h.2] at hback
    cases hback
  refine hflow.eq_of_pairwise ?_ (tree.flow_flowLe parent) ?_
  · intro a b ha hb hab hba
    by_contra hne
    exact hapart.forall (hflow.mem_iff.1 ha) hb hne ⟨hab, hba⟩
  · refine hsorted.imp ?_
    intro a b hback
    simpa [hback] using flowLe_total (tree.boundsAt a) (tree.boundsAt b)

/-- A page with a footer below a row of three boxes. The layers come in
another order than the boxes, the edges are not at zero, and the second box
is in the middle of the row and touches the third one. -/
def gridPage : ManifestLayer where
  name := "<body>"
  bounds := ⟨-20, -10, 300, 400⟩
  kind := .normal
  pixels := .solid ⟨255, 255, 255, 255⟩
  children :=
    [.solid "footer" ⟨-20, 150, 300, 50⟩ ⟨4, 5, 6, 255⟩,
      { ManifestLayer.solid "row" ⟨-20, 20, 300, 100⟩ ⟨0, 0, 0, 255⟩ with
        children :=
          [.solid "third" ⟨160, 40, 50, 20⟩ ⟨1, 1, 1, 255⟩,
            .solid "first" ⟨-10, 40, 80, 20⟩ ⟨2, 2, 2, 255⟩,
            .solid "second" ⟨100, 40, 60, 30⟩ ⟨3, 3, 3, 255⟩] }]

/-- The finished page of the grid: its flow, its places, and no pins. -/
theorem gridPage_converts :
    ∃ conversion,
      Converter.convert {} (.ofList [gridPage]) = .ok conversion
      ∧ ∃ tree, tree = conversion.page.tree
        ∧ tree.flow ⟨0⟩ = [⟨2⟩, ⟨1⟩] ∧ tree.flow ⟨2⟩ = [⟨4⟩, ⟨5⟩, ⟨3⟩]
        ∧ tree.boundsAt ⟨0⟩ = ⟨-20, -10, 300, 400⟩
        ∧ tree.boundsAt ⟨1⟩ = ⟨-20, 150, 300, 50⟩
        ∧ tree.boundsAt ⟨2⟩ = ⟨-20, 20, 300, 100⟩
        ∧ tree.boundsAt ⟨3⟩ = ⟨160, 40, 50, 20⟩
        ∧ tree.boundsAt ⟨4⟩ = ⟨-10, 40, 80, 20⟩
        ∧ tree.boundsAt ⟨5⟩ = ⟨100, 40, 60, 30⟩
        ∧ ∀ i ∈ List.range 6,
          tree.isAttached ⟨i⟩ = true ∧ tree.isNormal ⟨i⟩ = true
            ∧ ∀ k ∈ Layout.properties, tree.isPinned ⟨i⟩ k = false := by
  obtain ⟨built, hbuilt⟩ : ∃ built,
    BuiltTree.build Metadata.builtin gridPage = .ok built := ⟨_, rfl⟩
  have hknown : (BuiltTree.build Metadata.builtin gridPage).toOption.map
      (fun built => decide
        (([⟨2⟩, ⟨1⟩].Perm (built.tree.childrenOf ⟨0⟩)
            ∧ [⟨2⟩, ⟨1⟩].Pairwise fun a b => ElementTree.flowLe
              (built.tree.boundsAt b) (built.tree.boundsAt a) = false)
          ∧ ([⟨4⟩, ⟨5⟩, ⟨3⟩].Perm (built.tree.childrenOf ⟨2⟩)
            ∧ [⟨4⟩, ⟨5⟩, ⟨3⟩].Pairwise fun a b => ElementTree.flowLe
              (built.tree.boundsAt b) (built.tree.boundsAt a) = false)
          ∧ built.tree.boundsAt ⟨0⟩ = ⟨-20, -10, 300, 400⟩
          ∧ built.tree.boundsAt ⟨1⟩ = ⟨-20, 150, 300, 50⟩
          ∧ built.tree.boundsAt ⟨2⟩ = ⟨-20, 20, 300, 100⟩
          ∧ built.tree.boundsAt ⟨3⟩ = ⟨160, 40, 50, 20⟩
          ∧ built.tree.boundsAt ⟨4⟩ = ⟨-10, 40, 80, 20⟩
          ∧ built.tree.boundsAt ⟨5⟩ = ⟨100, 40, 60, 30⟩
          ∧ ∀ i ∈ List.range 6, built.tree.isAttached ⟨i⟩ = true
            ∧ built.tree.isNormal ⟨i⟩ = true
            ∧ ∀ k ∈ Layout.properties, built.tree.isPinned ⟨i⟩ k = false))
      = some true := by
    decide +kernel
  rw [hbuilt] at hknown
  obtain ⟨conversion, hconvert⟩ : ∃ conversion,
      Converter.convert {} (.ofList [gridPage]) = .ok conversion :=
    Converter.exists_convert_eq_ok rfl hbuilt
  obtain ⟨body, below, built', hcomes⟩ := Conversion.exists_comesFrom hconvert
  cases hcomes.layer
  cases hbuilt.symm.trans hcomes.build
  -- what is known of the tree that was built, no later step changes
  have hrestyled := hcomes.restyled
  obtain ⟨⟨hbody, hstacked⟩, ⟨hrow, hlevel⟩, hknown⟩ :=
    of_decide_eq_true (Option.some.inj hknown)
  refine ⟨conversion, hconvert, _, rfl, ?_⟩
  simp only [hrestyled.flow, hrestyled.boundsAt, hrestyled.isAttached,
    hrestyled.isNormal, hrestyled.isPinned]
  exact ⟨ElementTree.flow_eq_of_pairwise hbody hstacked,
    ElementTree.flow_eq_of_pairwise hrow hlevel, hknown⟩

/-- A finished page reproduces stacks. Let the children of a normal element
lie below each other, with no pin on its padding or on the margins above
them. Then for each child the padding of the element, the heights of the
layers above the child and the margins down to it are the distance of the
child's layer from the top of the element's. And each child whose own
first child starts no further below its top than it is high, with no pin
on its padding or its height, is as high as its layer, padding included. -/
theorem convert_reproduces_stacks {source : LayerDocument α}
    {conversion : Conversion α}
    (h : Converter.convert {} source = .ok conversion) :
    let tree := conversion.page.tree
    ∀ p, tree.isAttached p = true → tree.isNormal p = true →
      Geometry.Stacked tree p → tree.isPinned p "padding-top" = false →
      (∀ c ∈ tree.flow p, tree.isPinned c "margin-top" = false) →
      (∃ (padding : Int) (margin : ElementId → Int),
        tree.lengthOf? p "padding-top" = some padding
          ∧ (∀ c ∈ tree.flow p,
            tree.lengthOf? c "margin-top" = some (margin c))
          ∧ ∀ i (hi : i < (tree.flow p).length),
            padding
                + (((tree.flow p).take i).map fun c =>
                    (tree.boundsAt c).height.toInt).sum
                + (((tree.flow p).tail.take i).map margin).sum
              = (tree.boundsAt (tree.flow p)[i]).top
                - (tree.boundsAt p).top)
      ∧ ∀ c ∈ tree.flow p, tree.isPinned c "padding-top" = false →
        tree.isPinned c "height" = false →
        (∀ first, Geometry.first? tree c = some first →
          (tree.boundsAt first).top - (tree.boundsAt c).top
            ≤ (tree.boundsAt c).height.toInt) →
        ∃ padding height, tree.lengthOf? c "padding-top" = some padding
          ∧ (tree.valueOf? c "height").bind parsePx? = some height
          ∧ padding + height = (tree.boundsAt c).height.toInt := by
  intro tree p hattached hp hstacked hpad hfree
  obtain ⟨body, below, built, hcomes⟩ := Conversion.exists_comesFrom h
  have hfollows : tree.FollowsGeometry conversion.page.root :=
    hcomes.followsGeometry
  refine ⟨?_, fun c hc hpadc hheight hroom =>
    hfollows.topPadding_add_height hc hpadc hheight hroom⟩
  have hmargin : ∀ c ∈ tree.flow p, tree.lengthOf? c "margin-top"
      = some ((tree.lengthOf? c "margin-top").getD 0) := by
    intro c hc
    obtain ⟨margin, hread⟩ :=
      hfollows.exists_topMargin hp hstacked hfree hc
    rw [hread, Option.getD_some]
  obtain ⟨padding, hpadding⟩ :=
    hfollows.exists_topPadding hattached hp hstacked hpad
  exact ⟨padding, _, hpadding, hmargin,
    hfollows.stack_offset hp hstacked hpad hfree hpadding hmargin⟩

/-- The page of the grid has the row above the footer. -/
theorem gridPage_reproduces_stacks :
    ∃ conversion,
      Converter.convert {} (.ofList [gridPage]) = .ok conversion
      ∧ ∃ tree, tree = conversion.page.tree
        ∧ tree.isAttached ⟨0⟩ = true ∧ tree.isNormal ⟨0⟩ = true
        ∧ Geometry.Stacked tree ⟨0⟩
        ∧ tree.isPinned ⟨0⟩ "padding-top" = false
        ∧ (∀ c ∈ tree.flow ⟨0⟩, tree.isPinned c "margin-top" = false)
        ∧ (∃ (padding : Int) (margin : ElementId → Int),
          tree.lengthOf? ⟨0⟩ "padding-top" = some padding
            ∧ (∀ c ∈ tree.flow ⟨0⟩,
              tree.lengthOf? c "margin-top" = some (margin c))
            ∧ ∀ i (hi : i < (tree.flow ⟨0⟩).length),
              padding
                  + (((tree.flow ⟨0⟩).take i).map fun c =>
                      (tree.boundsAt c).height.toInt).sum
                  + (((tree.flow ⟨0⟩).tail.take i).map margin).sum
                = (tree.boundsAt (tree.flow ⟨0⟩)[i]).top
                  - (tree.boundsAt ⟨0⟩).top)
        ∧ (⟨2⟩ : ElementId) ∈ tree.flow ⟨0⟩
        ∧ tree.isPinned ⟨2⟩ "padding-top" = false
        ∧ tree.isPinned ⟨2⟩ "height" = false
        ∧ (∀ first, Geometry.first? tree ⟨2⟩ = some first →
          (tree.boundsAt first).top - (tree.boundsAt ⟨2⟩).top
            ≤ (tree.boundsAt ⟨2⟩).height.toInt)
        ∧ ∃ padding height, tree.lengthOf? ⟨2⟩ "padding-top" = some padding
          ∧ (tree.valueOf? ⟨2⟩ "height").bind parsePx? = some height
          ∧ padding + height = (tree.boundsAt ⟨2⟩).height.toInt := by
  obtain ⟨conversion, hconvert, tree, rfl, hflow, hrow, h0, h1, h2, -, h4, -,
    hall⟩ := gridPage_converts
  obtain ⟨hattached, hnormal, hfree0⟩ := hall 0 (by decide)
  obtain ⟨-, -, hfree1⟩ := hall 1 (by decide)
  obtain ⟨-, hnormal2, hfree2⟩ := hall 2 (by decide)
  have hpad := hfree0 "padding-top" (by decide)
  have hpad2 := hfree2 "padding-top" (by decide)
  have hheight2 := hfree2 "height" (by decide)
  have hstacked : Geometry.Stacked conversion.page.tree ⟨0⟩ := by
    -- the row and the footer, and the first of the row at the top
    constructor
    · rw [hflow, List.isChain_pair, h1, h2]
      decide
    · intro first hfirst
      rw [hflow] at hfirst
      cases hfirst
      rw [h0, h2]
      decide
  have hfree : ∀ c ∈ conversion.page.tree.flow ⟨0⟩,
      conversion.page.tree.isPinned c "margin-top" = false := by
    rw [hflow]
    simp [hfree1 "margin-top" (by decide), hfree2 "margin-top" (by decide)]
  have hmem : (⟨2⟩ : ElementId) ∈ conversion.page.tree.flow ⟨0⟩ := by
    rw [hflow]
    decide
  have hroom : ∀ first,
      Geometry.first? conversion.page.tree ⟨2⟩ = some first →
      (conversion.page.tree.boundsAt first).top
          - (conversion.page.tree.boundsAt ⟨2⟩).top
        ≤ (conversion.page.tree.boundsAt ⟨2⟩).height.toInt := by
    intro first hfirst
    rw [Geometry.first?, if_pos hnormal2, hrow] at hfirst
    cases hfirst
    rw [h2, h4]
    decide
  obtain ⟨hstack, hchild⟩ := convert_reproduces_stacks hconvert ⟨0⟩ hattached
    hnormal hstacked hpad hfree
  exact ⟨conversion, hconvert, _, rfl, hattached, hnormal, hstacked, hpad,
    hfree, hstack, hmem, hpad2, hheight2, hroom,
    hchild ⟨2⟩ hmem hpad2 hheight2 hroom⟩

-- =================================================================== rows

namespace Geometry

/-- Whether some children of an element are a row: neighbours in flow, two
or more, level with each other, where each starts right of the one before
it. Rows that can be made longer are rows, too. -/
structure IsRow (tree : ElementTree α) (p : ElementId)
    (row : List ElementId) : Prop where
  neighbours : row <:+: tree.flow p
  several : 2 ≤ row.length
  level : ∀ a ∈ row, ∀ b ∈ row, (tree.boundsAt a).top = (tree.boundsAt b).top
  apart : row.IsChain fun a b =>
    (tree.boundsAt a).right ≤ (tree.boundsAt b).left

end Geometry

/-- Nobody is alone among two or more. -/
private theorem exists_ne_of_nodup {β : Type} {l : List β} (hl : l.Nodup)
    (hlength : 2 ≤ l.length) (c : β) : ∃ i ∈ l, i ≠ c := by
  obtain ⟨a, b, rest, rfl⟩ : ∃ a b rest, l = a :: b :: rest := by
    match l, hlength with
    | a :: b :: rest, _ => exact ⟨a, b, rest, rfl⟩
  have hne : a ≠ b := by
    intro heq
    exact (List.nodup_cons.1 hl).1 (by simp [heq])
  by_cases hc : a = c
  · exact ⟨b, by simp, fun heq => hne (hc.trans heq.symm)⟩
  · exact ⟨a, by simp, hc⟩

/-- No length in pixels is left to the browser. -/
theorem Length.px_ne_auto {n : Int}
    (h : Text.fitsSigned Length.bits n = true) : px n ≠ "auto" := by
  intro heq
  have hread := Length.parsePx?_px h
  have hauto : parsePx? "auto" = none := by decide
  rw [heq, hauto] at hread
  cases hread

omit [Layer α] in
/-- A margin on the right that is a length is read as it is. -/
theorem ElementTree.rightMargin?_of_px {tree : ElementTree α}
    {id : ElementId} {n : Int}
    (hfits : Text.fitsSigned Length.bits n = true)
    (hvalue : tree.valueOf? id "margin-right" = some (px n)) :
    tree.rightMargin? id = some n := by
  unfold ElementTree.rightMargin? ElementTree.lengthOf?
  rw [hvalue, if_neg fun heq => Length.px_ne_auto hfits (Option.some.inj heq)]
  exact Length.parsePx?_px hfits

/-- Centring alone makes a margin that counts for nothing. -/
theorem ElementTree.rightMargin?_of_centring {tree : ElementTree α}
    {id : ElementId}
    (hvalue : tree.valueOf? id "margin-right" = Geometry.centring? tree id) :
    tree.rightMargin? id = some 0 := by
  unfold ElementTree.rightMargin? ElementTree.lengthOf?
  rw [hvalue]
  by_cases hauto : Geometry.centring? tree id = some "auto"
  · rw [if_pos hauto]
  · have hnone : Geometry.centring? tree id = none := by
      cases hc : Geometry.centring? tree id with
      | none => rfl
      | some text =>
          obtain ⟨q, -, hq⟩ := Option.bind_eq_some_iff.1 hc
          obtain ⟨-, htext⟩ := Option.ite_none_right_eq_some.1 hq
          exact absurd (hc.trans htext.symm) hauto
    rw [if_neg hauto, hnone]

namespace ElementTree.FollowsGeometry

variable {tree : ElementTree α} {root : ElementId}

/-- The members of a row float. -/
theorem float_of_mem_row (h : tree.FollowsGeometry root)
    {p c : ElementId} {row : List ElementId}
    (hp : tree.isNormal p = true) (hrow : Geometry.IsRow tree p row)
    (hc : c ∈ row) (hfree : tree.isPinned c "float" = false) :
    tree.valueOf? c "float" = some "left" := by
  have hflow : c ∈ tree.flow p := hrow.neighbours.subset hc
  have hparent := h.wellFormed.normalParent?_of_mem_flow hp hflow
  have hnodup : row.Nodup :=
    hrow.neighbours.sublist.nodup (h.wellFormed.flow_nodup p)
  obtain ⟨i, hi, hne⟩ := exists_ne_of_nodup hnodup hrow.several c
  have hchild : i ∈ tree.childrenOf p :=
    ElementTree.mem_flow.1 (hrow.neighbours.subset hi)
  rw [h.value c "float" (h.isAttached_of_mem_flow hflow).1 (by decide) hfree]
  show Geometry.float? tree c = _
  unfold Geometry.float?
  rw [hparent, Option.bind_some,
    if_pos ⟨i, hchild, hne, hrow.level i hi c hc⟩]

/-- The margin on the right of a child is a length or counts for
nothing. -/
theorem exists_rightMargin (h : tree.FollowsGeometry root)
    {p c : ElementId} (hc : c ∈ tree.flow p)
    (hfree : tree.isPinned c "margin-right" = false) :
    ∃ margin, tree.rightMargin? c = some margin := by
  have hvalue : tree.valueOf? c "margin-right"
      = (Geometry.gap? tree c).or (Geometry.centring? tree c) :=
    h.value c "margin-right" (h.isAttached_of_mem_flow hc).1 (by decide)
      hfree
  cases hgap : Geometry.gap? tree c with
  | none =>
      rw [hgap, Option.none_or] at hvalue
      exact ⟨0, ElementTree.rightMargin?_of_centring hvalue⟩
  | some text =>
      obtain ⟨next, -, hnext⟩ := Option.bind_eq_some_iff.1 hgap
      obtain ⟨-, htext⟩ := Option.ite_none_right_eq_some.1 hnext
      rw [hgap, Option.some_or, ← htext] at hvalue
      exact ⟨_, ElementTree.rightMargin?_of_px
        (Length.fitsSigned_sub_add ..) hvalue⟩

/-- One step along a row: the margin on the right of an element is the
distance to the next one. Where they touch there may be a margin from
centring, and that counts for nothing. -/
theorem rightMargin_of_next (h : tree.FollowsGeometry root)
    {p a b : ElementId} (hp : tree.isNormal p = true)
    (hnext : [a, b] <:+: tree.flow p)
    (hfree : tree.isPinned a "margin-right" = false)
    (hlevel : (tree.boundsAt b).top = (tree.boundsAt a).top)
    (hapart : (tree.boundsAt a).right ≤ (tree.boundsAt b).left) :
    tree.rightMargin? a
      = some ((tree.boundsAt b).left - (tree.boundsAt a).right) := by
  have ha : a ∈ tree.flow p := hnext.subset (by simp)
  have hparent := h.wellFormed.normalParent?_of_mem_flow hp ha
  have hb := (Geometry.next?_eq_some_iff h.wellFormed hparent).2 hnext
  have hvalue : tree.valueOf? a "margin-right"
      = (Geometry.gap? tree a).or (Geometry.centring? tree a) :=
    h.value a "margin-right" (h.isAttached_of_mem_flow ha).1 (by decide)
      hfree
  unfold Geometry.gap? at hvalue
  rw [hb, Option.bind_some] at hvalue
  by_cases hgap : (tree.boundsAt b).left - (tree.boundsAt a).right > 0
  · rw [if_pos ⟨hlevel, hgap⟩, Option.some_or] at hvalue
    exact ElementTree.rightMargin?_of_px (Length.fitsSigned_sub_add ..)
      hvalue
  · rw [if_neg fun hboth => hgap hboth.2, Option.none_or] at hvalue
    have hzero : (tree.boundsAt b).left - (tree.boundsAt a).right = 0 := by
      omega
    rw [hzero]
    exact ElementTree.rightMargin?_of_centring hvalue

/-- Along a row to the member at some position: the widths of the members
left of it and the margins between them are its distance from the first
one. -/
theorem row_offset (h : tree.FollowsGeometry root) {p : ElementId}
    {row : List ElementId} (hp : tree.isNormal p = true)
    (hrow : Geometry.IsRow tree p row)
    (hfree : ∀ c ∈ row, tree.isPinned c "margin-right" = false)
    {margin : ElementId → Int}
    (hmargin : ∀ c ∈ row, tree.rightMargin? c = some (margin c))
    (i : Nat) (hi : i < row.length) :
    ((row.take i).map fun c =>
        (tree.boundsAt c).width.toInt + margin c).sum
      = (tree.boundsAt row[i]).left - (tree.boundsAt row[0]).left := by
  induction i with
  | zero => simp
  | succ i ih =>
      have hprevious : i < row.length := by omega
      have ha : row[i] ∈ row := List.getElem_mem hprevious
      have hb : row[i + 1] ∈ row := List.getElem_mem hi
      have hnext : [row[i], row[i + 1]] <:+: tree.flow p :=
        (ElementTree.pair_infix hi).trans hrow.neighbours
      have hapart := List.isChain_iff_getElem.1 hrow.apart i hi
      have hread := h.rightMargin_of_next hp hnext (hfree _ ha)
        (hrow.level _ hb _ ha) hapart
      rw [hmargin _ ha] at hread
      have heq := Option.some.inj hread
      have hright : (tree.boundsAt row[i]).right
          = (tree.boundsAt row[i]).left
            + (tree.boundsAt row[i]).width.toInt := rfl
      -- one more width, and one more margin
      have hrest := ih hprevious
      rw [sum_map_take_succ _ hprevious]
      omega

end ElementTree.FollowsGeometry

/-- A finished page reproduces rows. Let some children of a normal element
be a row, with no pin on their floats or on the margins on their right.
Then all of them float to the left, and for each the widths of the layers
left of it and the margins on their right are the distance of its layer
from the first one. -/
theorem convert_reproduces_rows {source : LayerDocument α}
    {conversion : Conversion α}
    (h : Converter.convert {} source = .ok conversion) :
    let tree := conversion.page.tree
    ∀ p row, tree.isNormal p = true → Geometry.IsRow tree p row →
      (∀ c ∈ row, tree.isPinned c "float" = false
        ∧ tree.isPinned c "margin-right" = false) →
      (∀ c ∈ row, tree.valueOf? c "float" = some "left")
      ∧ ∃ margin : ElementId → Int,
        (∀ c ∈ row, tree.rightMargin? c = some (margin c))
          ∧ ∀ i (hi : i < row.length),
            ((row.take i).map fun c =>
                (tree.boundsAt c).width.toInt + margin c).sum
              = (tree.boundsAt row[i]).left
                - (tree.boundsAt row[0]).left := by
  intro tree p row hp hrow hfree
  obtain ⟨body, below, built, hcomes⟩ := Conversion.exists_comesFrom h
  have hfollows : tree.FollowsGeometry conversion.page.root :=
    hcomes.followsGeometry
  have hmargin : ∀ c ∈ row, tree.rightMargin? c
      = some ((tree.rightMargin? c).getD 0) := by
    intro c hc
    obtain ⟨margin, hread⟩ := hfollows.exists_rightMargin
      (hrow.neighbours.subset hc) (hfree c hc).2
    rw [hread, Option.getD_some]
  exact ⟨fun c hc => hfollows.float_of_mem_row hp hrow hc (hfree c hc).1, _,
    hmargin, hfollows.row_offset hp hrow (fun c hc => (hfree c hc).2) hmargin⟩

/-- The page of the grid has the three boxes beside each other. -/
theorem gridPage_reproduces_rows :
    ∃ conversion,
      Converter.convert {} (.ofList [gridPage]) = .ok conversion
      ∧ ∃ tree row, tree = conversion.page.tree
        ∧ row = ([⟨4⟩, ⟨5⟩, ⟨3⟩] : List ElementId)
        ∧ tree.isNormal ⟨2⟩ = true ∧ Geometry.IsRow tree ⟨2⟩ row
        ∧ (∀ c ∈ row, tree.isPinned c "float" = false
          ∧ tree.isPinned c "margin-right" = false)
        ∧ (∀ c ∈ row, tree.valueOf? c "float" = some "left")
        ∧ ∃ margin : ElementId → Int,
          (∀ c ∈ row, tree.rightMargin? c = some (margin c))
            ∧ ∀ i (hi : i < row.length),
              ((row.take i).map fun c =>
                  (tree.boundsAt c).width.toInt + margin c).sum
                = (tree.boundsAt row[i]).left
                  - (tree.boundsAt row[0]).left := by
  obtain ⟨conversion, hconvert, tree, rfl, -, hflow, -, -, -, h3, h4, h5,
    hall⟩ := gridPage_converts
  have hnormal := (hall 2 (by decide)).2.1
  have hrow : Geometry.IsRow conversion.page.tree ⟨2⟩ [⟨4⟩, ⟨5⟩, ⟨3⟩] := by
    constructor
    · exact hflow.symm ▸ List.infix_refl _
    · decide
    · simp only [List.mem_cons, List.not_mem_nil, or_false, forall_eq_or_imp,
        forall_eq, h3, h4, h5]
      decide
    · rw [List.isChain_cons_cons, List.isChain_pair, h3, h4, h5]
      decide
  have hfree : ∀ c ∈ ([⟨4⟩, ⟨5⟩, ⟨3⟩] : List ElementId),
      conversion.page.tree.isPinned c "float" = false
        ∧ conversion.page.tree.isPinned c "margin-right" = false := by
    have hnone : ∀ i ∈ List.range 6,
        conversion.page.tree.isPinned ⟨i⟩ "float" = false
          ∧ conversion.page.tree.isPinned ⟨i⟩ "margin-right" = false :=
      fun i hi => ⟨(hall i hi).2.2 "float" (by decide),
        (hall i hi).2.2 "margin-right" (by decide)⟩
    simp only [List.mem_cons, List.not_mem_nil, or_false, forall_eq_or_imp,
      forall_eq]
    exact ⟨hnone 4 (by decide), hnone 5 (by decide), hnone 3 (by decide)⟩
  obtain ⟨hfloat, hoffset⟩ :=
    convert_reproduces_rows hconvert ⟨2⟩ _ hnormal hrow hfree
  exact ⟨conversion, hconvert, _, _, rfl, rfl, hnormal, hrow, hfree, hfloat,
    hoffset⟩

end LayerPage
