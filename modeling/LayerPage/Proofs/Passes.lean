/-
One pass or two. A conversion runs layout and then the heuristics at each
element before it goes on to the next one; running layout at all elements
first, and the heuristics at all of them afterwards, gives the same tree
and the same diagnostics (`refineAll_eq_passes`).

# Where the two differ on the way

The heuristic for floats looks at an element right after that element's
own visit, and the float may be written only later, by the visit of its
neighbour before it in flow: layer order is not flow order. Then the
parent's overflow is not hidden on account of this element. But the
neighbour that makes it float comes to float by the same visit, and has
the same parent, so that the overflow is hidden on its account
(`floats_by_own_visit`). Hiding twice is hiding once, so it is enough
that the same parents are concerned in the end.

# What carries the induction

`Reached` compares the interleaved run with layout alone: the same
inferences of layout, the selectors of the elements visited so far, and
hidden overflow of parents that are between those of elements which
float by their own visit and those of elements which float in the end.
-/
import LayerPage.Proofs.Heuristic
import LayerPage.Proofs.Convert
import LayerPage.Proofs.Layout.Outcome

namespace LayerPage

variable {α : Type} [Layer α]

open Layout (carryOut latest? visitWrites VisitOrder HeightKnown)
open Heuristic (select selectAll hidings floatParent? complaints)

-- ============================================================== floating

namespace Layout

/-- Layout does not touch overflow. -/
theorem property_ne_of_mem_visitWrites {tree : ElementTree α}
    {u : ElementId} {w : Write} (h : w ∈ visitWrites tree u) :
    w.property ≠ "overflow" := by
  intro hw
  have hsome := latest?_isSome_of_mem h
  rw [hw, latest?_visit_of_not_mem tree u w.target (by decide)] at hsome
  cases hsome

/-- An element that a visit makes float has the parent of the element that
is visited, and this one floats by its own visit. -/
theorem floats_by_own_visit {tree : ElementTree α} {root : ElementId}
    (hwell : tree.WellFormed root) {u c : ElementId}
    (h : (latest? (visitWrites tree u) c "float").isSome = true) :
    tree.parentId? u = tree.parentId? c
      ∧ (latest? (visitWrites tree u) u "float").isSome = true := by
  have hleft : latest? (visitWrites tree u) c "float" = some "left" := by
    by_cases hc : latest? (visitWrites tree u) c "float" = some "left"
    · exact hc
    · rw [visit_float_of_ne hc] at h
      cases h
  obtain ⟨p, next, hp, hnext, hone, hlevel⟩ := visit_float_iff.1 hleft
  have hparent := ElementTree.parentId?_of_normalParent? hp
  constructor
  · rcases hone with rfl | rfl
    · rfl
    · rw [hparent, ((hwell.nextInFlow?_iff_prevInFlow? hparent).1 hnext).1]
  · rw [visit_float_iff.2 ⟨p, next, hp, hnext, Or.inl rfl, hlevel⟩]
    rfl

omit [Layer α] in
/-- An element has a float after some inferences if it had one, or if one
of them is a float. -/
theorem floatParent?_carryOut_iff {tree : ElementTree α} {c p : ElementId}
    {writes : List Write} :
    floatParent? (carryOut tree writes) c = some p
      ↔ tree.parentId? c = some p
        ∧ ((latest? writes c "float").isSome = true
          ∨ (tree.valueOf? c "float").isSome = true) := by
  unfold floatParent?
  rw [(restyled_carryOut tree writes).parentId?]
  cases hget : tree.get? c with
  | none =>
      have hnone : tree.parentId? c = none := by
        rw [ElementTree.parentId?, hget]
        rfl
      rw [hnone, ite_self]
      simp
  | some e =>
      have hlt := ElementTree.get?_isSome_iff.1 ⟨e, hget⟩
      rw [isSome_valueOf?_carryOut hlt, ← Bool.or_eq_true]
      split
      · next hfloat => rw [and_iff_left hfloat]
      · next hfloat => simp [hfloat]

/-- An element that floats after some visits does so after more of them. -/
theorem floatParent?_of_more_visits {tree : ElementTree α}
    {visits more : List ElementId} (hmore : ∀ u ∈ visits, u ∈ more)
    {c p : ElementId}
    (h : floatParent? (carryOut tree (visits.flatMap (visitWrites tree))) c
      = some p) :
    floatParent? (carryOut tree (more.flatMap (visitWrites tree))) c
      = some p := by
  rw [floatParent?_carryOut_iff, isSome_latest?_flatMap_iff] at h ⊢
  refine ⟨h.1, h.2.imp_left ?_⟩
  rintro ⟨u, hu, hvisit⟩
  exact ⟨u, hmore u hu, hvisit⟩

/-- If an element floats after the visits of a whole tree, some visited
element has the same parent and floats by its own visit. -/
theorem exists_own_float {tree : ElementTree α} {root : ElementId}
    (hwell : tree.WellFormed root) {ids : List ElementId}
    {c p : ElementId} (hc : c ∈ ids)
    (h : floatParent? (carryOut tree (ids.flatMap (visitWrites tree))) c
      = some p) :
    ∃ u ∈ ids, floatParent? (carryOut tree (visitWrites tree u)) u
      = some p := by
  obtain ⟨hparent, hfloat | hfloat⟩ := floatParent?_carryOut_iff.1 h
  · obtain ⟨u, hu, hvisit⟩ := isSome_latest?_flatMap_iff.1 hfloat
    obtain ⟨hsame, hown⟩ := floats_by_own_visit hwell hvisit
    exact ⟨u, hu, floatParent?_carryOut_iff.2
      ⟨hsame.trans hparent, Or.inl hown⟩⟩
  · exact ⟨c, hc, floatParent?_carryOut_iff.2 ⟨hparent, Or.inr hfloat⟩⟩

end Layout

-- =========================================================== interleaved

/-- Where an interleaved run has got to after some of the elements. -/
structure Reached (tree : ElementTree α) (ids before : List ElementId)
    (now : ElementTree α × List Diagnostic) (hidden : List ElementId) :
    Prop where
  /-- Layout, then selectors, then hidden overflow. -/
  tree_eq : now.1
    = carryOut (selectAll
        (carryOut tree (before.flatMap (visitWrites tree))) before)
        (hidings hidden)
  met : now.2 = before.flatMap (complaints tree)
  /-- Nothing is hidden on account of an element that will not float. -/
  sound : ∀ p ∈ hidden, ∃ c ∈ before,
    floatParent? (carryOut tree (ids.flatMap (visitWrites tree))) c = some p
  /-- Elements that float by their own visit are accounted for. -/
  complete : ∀ c ∈ before, ∀ p,
    floatParent? (carryOut tree (visitWrites tree c)) c = some p → p ∈ hidden

theorem Reached.restyled {tree : ElementTree α}
    {ids before hidden : List ElementId}
    {now : ElementTree α × List Diagnostic}
    (h : Reached tree ids before now hidden) : tree.Restyled now.1 := by
  rw [h.tree_eq]
  exact ((Layout.restyled_carryOut ..).trans
    (Heuristic.restyled_selectAll ..)).trans (Layout.restyled_carryOut ..)

/-- Selecting and hiding leave every other property as layout has it. -/
theorem Reached.valueOf? {tree : ElementTree α}
    {ids before hidden : List ElementId}
    {now : ElementTree α × List Diagnostic}
    (h : Reached tree ids before now hidden) (i : ElementId) {k : String}
    (hk : k ≠ "overflow") :
    now.1.valueOf? i k
      = (carryOut tree (before.flatMap (visitWrites tree))).valueOf? i k := by
  rw [h.tree_eq, Heuristic.valueOf?_hidings hk,
    Heuristic.valueOf?_selectAll]

namespace Converter

/-- Layout of one more element in an interleaved run. -/
theorem inferStyle_reached {tree : ElementTree α} {root : ElementId}
    (hwell : tree.WellFormed root) {ids : List ElementId}
    (horder : VisitOrder tree ids) {before rest : List ElementId}
    {id : ElementId} (hsplit : ids = before ++ id :: rest)
    {now : ElementTree α × List Diagnostic} {hidden : List ElementId}
    (h : Reached tree ids before now hidden) :
    Layout.inferStyle now.1 id
      = carryOut (selectAll (carryOut tree
          ((before ++ [id]).flatMap (visitWrites tree))) before)
          (hidings hidden) := by
  have hvisit : Layout.inferStyle now.1 id
      = carryOut now.1 (visitWrites tree id) := by
    apply Layout.inferStyle_eq_carryOut h.restyled
    · rintro p hp rfl
      exact Nat.lt_irrefl _ (hwell.parentId?_lt
        (ElementTree.parentId?_of_normalParent? hp))
    · intro p hp hfirst hfree
      -- the height read back is the one that layout alone has
      rw [h.valueOf? p (by decide)]
      apply Layout.heightKnown_before hwell horder hsplit hp hfirst
      rw [(Layout.restyled_carryOut ..).isPinned]
      rw [h.restyled.isPinned] at hfree
      exact hfree
  have hne : ∀ v ∈ hidings hidden, ∀ w ∈ visitWrites tree id,
      v.property ≠ w.property := by
    intro v hv w hw
    rw [Heuristic.property_of_mem_hidings hv]
    exact (Layout.property_ne_of_mem_visitWrites hw).symm
  rw [hvisit, h.tree_eq, Layout.carryOut_comm _ hne,
    Heuristic.carryOut_selectAll, ← Layout.carryOut_append,
    List.flatMap_append, List.flatMap_singleton]

/-- One step of an interleaved run. -/
theorem refine_reached {tree : ElementTree α} {root : ElementId}
    (hwell : tree.WellFormed root) {ids : List ElementId}
    (horder : VisitOrder tree ids) {before rest : List ElementId}
    {id : ElementId} (hsplit : ids = before ++ id :: rest)
    {now : ElementTree α × List Diagnostic} {hidden : List ElementId}
    (h : Reached tree ids before now hidden) :
    Reached tree ids (before ++ [id])
      ((refine {} now.1 id).1, now.2 ++ (refine {} now.1 id).2)
      (hidden ++ (floatParent? (carryOut tree
        ((before ++ [id]).flatMap (visitWrites tree))) id).toList) := by
  have hlayout := inferStyle_reached hwell horder hsplit h
  have hrestyled := h.restyled.trans (Layout.restyled_inferStyle now.1 id)
  have hfloat : floatParent? (Layout.inferStyle now.1 id) id
      = floatParent? (carryOut tree
          ((before ++ [id]).flatMap (visitWrites tree))) id := by
    have hlaid := Layout.restyled_carryOut tree
      ((before ++ [id]).flatMap (visitWrites tree))
    unfold floatParent?
    rw [hrestyled.parentId?, hlaid.parentId?, hlayout,
      Heuristic.valueOf?_hidings (by decide), Heuristic.valueOf?_selectAll]
  have hrefine : refine {} now.1 id
      = (carryOut (select (Layout.inferStyle now.1 id) id)
          (hidings (floatParent? (carryOut tree
            ((before ++ [id]).flatMap (visitWrites tree))) id).toList),
        complaints tree id) := by
    rw [← hfloat, ← Heuristic.complaints_congr hrestyled]
    exact Heuristic.applyAll_builtin ..
  rw [hrefine]
  refine ⟨?_, ?_, ?_, ?_⟩
  · show carryOut (select (Layout.inferStyle now.1 id) id) _ = _
    rw [hlayout, ← Heuristic.carryOut_select, ← Layout.carryOut_append,
      ← Heuristic.hidings_append, ← Heuristic.selectAll_concat]
  · show now.2 ++ complaints tree id = _
    rw [h.met, List.flatMap_append, List.flatMap_singleton]
  · intro p hp
    rcases List.mem_append.1 hp with hp | hp
    · obtain ⟨c, hc, hfloats⟩ := h.sound p hp
      exact ⟨c, List.mem_append_left _ hc, hfloats⟩
    · -- what floats now still floats in the end
      refine ⟨id, List.mem_append_right _ List.mem_cons_self, ?_⟩
      refine Layout.floatParent?_of_more_visits ?_ (Option.mem_toList.1 hp)
      intro u hu
      rw [hsplit, List.append_cons]
      exact List.mem_append_left _ hu
  · -- what floats by its own visit alone floats after all visits so far
    intro c hc p hp
    rcases List.mem_append.1 hc with hc | hc
    · exact List.mem_append_left _ (h.complete c hc p hp)
    · rw [List.mem_singleton] at hc
      subst hc
      rw [← List.flatMap_singleton (visitWrites tree)] at hp
      refine List.mem_append_right _ (Option.mem_toList.2 ?_)
      refine Layout.floatParent?_of_more_visits ?_ hp
      exact fun u hu => List.mem_append_right _ hu

theorem refineAll_concat (converter : Converter α) (tree : ElementTree α)
    (ids : List ElementId) (id : ElementId) :
    converter.refineAll tree (ids ++ [id])
      = ((converter.refine (converter.refineAll tree ids).1 id).1,
          (converter.refineAll tree ids).2
            ++ (converter.refine (converter.refineAll tree ids).1 id).2) := by
  unfold refineAll
  rw [List.foldl_append]
  rfl

/-- An interleaved run from its start to its end. -/
theorem refineAll_reached {tree : ElementTree α} {root : ElementId}
    (hwell : tree.WellFormed root) {ids : List ElementId}
    (horder : VisitOrder tree ids) :
    ∃ hidden, Reached tree ids ids (refineAll {} tree ids) hidden := by
  suffices general : ∀ rest before hidden, ids = before ++ rest →
      Reached tree ids before (refineAll {} tree before) hidden →
      ∃ hidden, Reached tree ids ids (refineAll {} tree ids) hidden by
    refine general ids [] [] rfl ⟨rfl, rfl, ?_, ?_⟩
    · exact List.forall_mem_nil _
    · exact List.forall_mem_nil _
  intro rest
  induction rest with
  | nil =>
      intro before hidden hsplit h
      rw [List.append_nil] at hsplit
      subst hsplit
      exact ⟨hidden, h⟩
  | cons id rest ih =>
      intro before hidden hsplit h
      have hstep := refine_reached hwell horder hsplit h
      rw [← refineAll_concat] at hstep
      refine ih (before ++ [id]) _ ?_ hstep
      rw [hsplit, List.append_assoc]
      rfl

/-- Layout and heuristics at each element in turn are layout at all of
them and then heuristics at all of them. -/
theorem refineAll_eq_passes {tree : ElementTree α} {root : ElementId}
    (hwell : tree.WellFormed root) {ids : List ElementId}
    (horder : VisitOrder tree ids) :
    refineAll {} tree ids
      = Heuristic.runAll Heuristic.builtin (ids.foldl Layout.inferStyle tree)
          ids := by
  obtain ⟨hidden, hreached⟩ := refineAll_reached hwell horder
  have hlaid := Layout.restyled_carryOut tree
    (ids.flatMap (visitWrites tree))
  rw [Layout.run_eq_carryOut hwell horder, Heuristic.runAll_builtin]
  apply Prod.ext
  · rw [hreached.tree_eq]
    apply Heuristic.carryOut_hidings_congr
    intro p
    rw [List.mem_filterMap]
    constructor
    · exact hreached.sound p
    · rintro ⟨c, hc, hfloat⟩
      obtain ⟨u, hu, hown⟩ := Layout.exists_own_float hwell hc hfloat
      exact hreached.complete u hu p hown
  · rw [hreached.met]
    show _ = ids.flatMap (complaints _)
    congr 1
    funext id
    exact (Heuristic.complaints_congr hlaid id).symm

end Converter

/-- A built tree is well-formed when the rule of its root is reset. -/
theorem Construction.BuiltFrom.reset_wellFormed {root : α}
    {below : Forest α} {built : BuiltTree α}
    (h : BuiltFrom Metadata.builtin root below built) :
    (built.tree.modifyStyle built.root Converter.resetRoot).WellFormed
      built.root := by
  have hwell := h.wellFormed Metadata.decorates_builtin
  obtain ⟨e, hget, -, hattached⟩ := hwell.root_get
  exact hwell.modifyStyle
    (ElementTree.isAttached_iff.2 ⟨e, hget, hattached⟩)
    Converter.pin?_resetRoot

/-- Converting a document is layout at all elements below the root, in the
order of creation, and then the heuristics at all of them in the same
order. -/
theorem convert_eq_layout_then_heuristics {source : LayerDocument α}
    {body : α} {built : BuiltTree α} (hbody : source.layer? 0 = some body)
    (hbuild : BuiltTree.build Metadata.builtin body = .ok built) :
    let reset := built.tree.modifyStyle built.root Converter.resetRoot
    let ids := reset.descendants built.root
    let laidOut := ids.foldl Layout.inferStyle reset
    let refined := Heuristic.runAll Heuristic.builtin laidOut ids
    Converter.convert {} source = .ok
      { page :=
          { tree := refined.1
            root := built.root
            stylesheetOrder := built.stylesheet
            config := (Converter.readConfiguration source).1 }
        diagnostics := (Converter.readConfiguration source).2
          ++ built.diagnostics ++ refined.2 } := by
  intro reset ids laidOut refined
  obtain ⟨below, -, hbuilt⟩ :=
    Construction.builtFrom Metadata.decorates_builtin hbuild
  have hreset : reset.WellFormed built.root := hbuilt.reset_wellFormed
  have hpasses : Converter.refineAll {} reset ids = refined :=
    Converter.refineAll_eq_passes hreset (Layout.visitOrder_descendants hreset)
  unfold Converter.convert
  rw [hbody]
  simp only [hbuild]
  rw [hpasses]

/-- The sample page, converted in one pass and in two. -/
theorem samplePage_layout_then_heuristics :
    ∃ built, BuiltTree.build Metadata.builtin samplePage = .ok built
      ∧ ∃ reset ids laidOut refined,
        reset = built.tree.modifyStyle built.root Converter.resetRoot
        ∧ ids = reset.descendants built.root
        ∧ laidOut = ids.foldl Layout.inferStyle reset
        ∧ refined = Heuristic.runAll Heuristic.builtin laidOut ids
        ∧ Converter.convert {} (.ofList [samplePage]) = .ok
            { page :=
                { tree := refined.1
                  root := built.root
                  stylesheetOrder := built.stylesheet
                  config := (Converter.readConfiguration
                    (.ofList [samplePage])).1 }
              diagnostics := (Converter.readConfiguration
                (.ofList [samplePage])).2 ++ built.diagnostics
                  ++ refined.2 } := by
  obtain ⟨built, hbuilt⟩ : ∃ built,
    BuiltTree.build Metadata.builtin samplePage = .ok built := ⟨_, rfl⟩
  exact ⟨built, hbuilt, _, _, _, _, rfl, rfl, rfl, rfl,
    convert_eq_layout_then_heuristics rfl hbuilt⟩

end LayerPage
