/-
The visible part of a tree, and the text that is written of it. `Sees` is
a relation, so that it says what is seen without a number of levels: an
element with an empty tag hides all below it, any other one is seen with
what is seen below it, in the order of its children. In a well-formed tree
every list of children sees one forest, and no element twice
(`exists_sees`).

The text of a forest (`textOf`) has every label of it once, between tabs
for its depth, siblings from the last one to the first; the markup of a
tree is the text of what its root sees (`body_eq_textOf`).
-/
import LayerPage.Page
import LayerPage.Proofs.Element.Decorated
import LayerPage.Proofs.Forest

namespace LayerPage

variable {α : Type}

namespace Markup

/-- What is written of an element, its children apart. -/
structure Head where
  tag : String
  attributes : SortedMap String
  deriving DecidableEq

/-- The opening tag, with the attributes. -/
def Head.opening (head : Head) : String :=
  "<" ++ head.tag ++ attributesText head.attributes ++ ">"

/-- The closing tag. -/
def Head.closing (head : Head) : String :=
  "</" ++ head.tag ++ ">"

/-- The text of a forest that lies on a level: siblings from the last one
to the first, each of them between tabs for its level, and what is below
it on the next one. -/
def textOf (level : Nat) : Forest Head → String
  | .nil => ""
  | .cons head below rest =>
    textOf level rest
      ++ (indent level ++ head.opening ++ "\n"
        ++ textOf (level + 1) below
        ++ indent level ++ head.closing ++ "\n")

/-- A forest as markup; what is below an element is written from the last
one to the first. -/
def ofForest : Forest Head → List Markup
  | .nil => []
  | .cons head below rest =>
    .element head.tag head.attributes (ofForest below).reverse
      :: ofForest rest

/-- Without remarks nothing is written beside the tags. -/
theorem expand_empty (tag : String) (attributes : SortedMap String) :
    expand "" tag attributes = "" := by
  unfold expand
  cases reference? attributes with
  | none => rfl
  | some reference => rfl

theorem renderAll_append (remark : Remark) (level : Nat)
    (first later : List Markup) :
    renderAll remark level (first ++ later)
      = renderAll remark level first ++ renderAll remark level later := by
  induction first with
  | nil => rw [List.nil_append, renderAll, String.empty_append]
  | cons markup first ih =>
      rw [List.cons_append, renderAll, renderAll, ih]
      simp only [String.append_assoc]

/-- The text of an element without remarks. -/
theorem render_element (level : Nat) (tag : String)
    (attributes : SortedMap String) (children : List Markup) :
    render {} level (.element tag attributes children)
      = "<" ++ tag ++ attributesText attributes ++ ">" ++ "\n"
        ++ renderAll {} (level + 1) children
        ++ indent level ++ "</" ++ tag ++ ">" ++ "\n" := by
  have hrender : render {} level (.element tag attributes children)
      = "<" ++ tag ++ attributesText attributes ++ ">"
        ++ expand "" tag attributes ++ "\n"
        ++ renderAll {} (level + 1) children
        ++ indent level ++ "</" ++ tag ++ ">"
        ++ expand "" tag attributes ++ "\n" := rfl
  rw [hrender, expand_empty, String.append_empty, String.append_empty]

/-- Of a forest the trees after the first one are written first. -/
theorem renderAll_ofForest_cons (remark : Remark) (level : Nat)
    (head : Head) (below rest : Forest Head) :
    renderAll remark level (ofForest (.cons head below rest)).reverse
      = renderAll remark level (ofForest rest).reverse
        ++ (indent level ++ render remark level
          (.element head.tag head.attributes (ofForest below).reverse)) := by
  rw [ofForest, List.reverse_cons, renderAll_append, renderAll, renderAll,
    String.append_empty]

/-- What is written of a forest is its text. -/
theorem renderAll_ofForest (level : Nat) (forest : Forest Head) :
    renderAll {} level (ofForest forest).reverse = textOf level forest := by
  induction forest generalizing level with
  | nil => rfl
  | cons head below rest ihBelow ihRest =>
      rw [renderAll_ofForest_cons, ihRest, render_element, ihBelow, textOf,
        Head.opening, Head.closing]
      simp only [String.append_assoc]

end Markup

-- ============================================================== seeing

/-- What is written of an element, its children apart. -/
def Element.head (e : Element α) : Markup.Head :=
  ⟨e.tag, e.attributes⟩

namespace ElementTree

/-- What is seen from elements in a tree, in their order. An element with
an empty tag hides everything below it. -/
inductive Sees (tree : ElementTree α) :
    List ElementId → Forest (ElementId × Markup.Head) → Prop
  | nil : Sees tree [] .nil
  | hidden {id : ElementId} {e : Element α} {ids : List ElementId}
      {rest : Forest (ElementId × Markup.Head)} :
      tree.get? id = some e → e.tag = "" → Sees tree ids rest →
      Sees tree (id :: ids) rest
  | shown {id : ElementId} {e : Element α} {ids : List ElementId}
      {below rest : Forest (ElementId × Markup.Head)} :
      tree.get? id = some e → e.tag ≠ "" → Sees tree e.children below →
      Sees tree ids rest →
      Sees tree (id :: ids) (.cons (id, e.head) below rest)

variable {tree : ElementTree α}

/-- There is no more than one way to see a tree. -/
theorem Sees.unique {ids : List ElementId}
    {forest other : Forest (ElementId × Markup.Head)}
    (h : tree.Sees ids forest) (hother : tree.Sees ids other) :
    other = forest := by
  induction h generalizing other with
  | nil =>
      cases hother
      rfl
  | hidden hget htag _ ih =>
      cases hother with
      | hidden _ _ hrest => exact ih hrest
      | shown hget' htag' _ _ =>
          rw [hget] at hget'
          cases hget'
          exact absurd htag htag'
  | shown hget htag _ _ ihBelow ihRest =>
      cases hother with
      | hidden hget' htag' _ =>
          rw [hget] at hget'
          cases hget'
          exact absurd htag' htag
      | shown hget' _ hbelow hrest =>
          rw [hget] at hget'
          cases hget'
          rw [ihBelow hbelow, ihRest hrest]

/-- What some elements see is what the first of them see, and then what
the others do. -/
theorem Sees.of_append {ids others : List ElementId}
    {forest : Forest (ElementId × Markup.Head)}
    (h : tree.Sees (ids ++ others) forest) :
    ∃ first later, forest = first ++ later ∧ tree.Sees ids first
      ∧ tree.Sees others later := by
  induction ids generalizing forest with
  | nil => exact ⟨.nil, forest, rfl, .nil, h⟩
  | cons id ids ih =>
      cases h with
      | hidden hget htag hrest =>
          obtain ⟨first, later, rfl, hfirst, hlater⟩ := ih hrest
          exact ⟨first, later, rfl, .hidden hget htag hfirst, hlater⟩
      | shown hget htag hbelow hrest =>
          obtain ⟨first, later, rfl, hfirst, hlater⟩ := ih hrest
          exact ⟨_, later, rfl, .shown hget htag hbelow hfirst, hlater⟩

/-- A visit that comes to an end sees something, and no more than what it
visits. -/
theorem exists_sees_of_visit {pending visited : List ElementId}
    (h : tree.Visit pending visited) :
    ∃ forest, tree.Sees pending forest
      ∧ (forest.labels.map Prod.fst).Sublist visited := by
  induction h with
  | done => exact ⟨.nil, .nil, .slnil⟩
  | @step id e pending visited hget _ ih =>
      obtain ⟨forest, hsees, hsub⟩ := ih
      obtain ⟨below, rest, rfl, hbelow, hrest⟩ := hsees.of_append
      rw [Forest.labels_append, List.map_append] at hsub
      by_cases htag : e.tag = ""
      · refine ⟨rest, .hidden hget htag hrest, .cons _ ?_⟩
        exact (List.sublist_append_right _ _).trans hsub
      · refine ⟨_, .shown hget htag hbelow hrest, ?_⟩
        rw [Forest.labels, List.map_cons, List.map_append]
        exact hsub.cons_cons id

/-- From the root of a decorated tree that was well-formed one forest is
seen, no element twice, and only attached ones. -/
theorem WellFormed.exists_sees {t t' : ElementTree α} {root : ElementId}
    (h : t.WellFormed root) (hdecorated : t.Decorated t') :
    ∃ seen, (∀ other, t'.Sees [root] other ↔ other = seen)
      ∧ (seen.labels.map Prod.fst).Nodup
      ∧ ∀ label ∈ seen.labels, t.isAttached label.1 = true := by
  obtain ⟨seen, hsees, hsub⟩ :=
    exists_sees_of_visit (hdecorated.visit h.visit_root)
  refine ⟨seen, ?_, hsub.nodup (ElementId.nodup_of_ascending h.ascending),
    ?_⟩
  · intro other
    constructor
    · exact hsees.unique
    · intro hother
      rw [hother]
      exact hsees
  · intro label hlabel
    have hmem := hsub.subset (List.mem_map_of_mem hlabel)
    rw [h.descendants_root, mem_attached_iff, ← isAttached_iff] at hmem
    exact hmem

/-- A label that is seen is that of its element. -/
theorem Sees.get? {ids : List ElementId}
    {forest : Forest (ElementId × Markup.Head)}
    (h : tree.Sees ids forest) {label : ElementId × Markup.Head}
    (hlabel : label ∈ forest.labels) :
    ∃ e, tree.get? label.1 = some e ∧ e.tag ≠ "" ∧ label.2 = e.head := by
  induction h with
  | nil => cases hlabel
  | hidden _ _ _ ih => exact ih hlabel
  | shown hget htag _ _ ihBelow ihRest =>
      rcases List.mem_cons.1 hlabel with rfl | hlabel
      · exact ⟨_, hget, htag, rfl⟩
      · rcases List.mem_append.1 hlabel with hlabel | hlabel
        · exact ihBelow hlabel
        · exact ihRest hlabel

-- ============================================================== writing

/-- As long as children come after their parents, the number of elements
is enough for the levels below a first one. -/
theorem Sees.filterMap_markupWithin? {ids : List ElementId}
    {forest : Forest (ElementId × Markup.Head)}
    (h : tree.Sees ids forest)
    (hlater : ∀ q e, tree.get? q = some e →
      ∀ k ∈ e.children, q.index < k.index)
    {levels : Nat} (hlevels : ∀ id ∈ ids, tree.size ≤ levels + id.index) :
    ids.filterMap (tree.markupWithin? levels)
      = Markup.ofForest (forest.map Prod.snd) := by
  induction h generalizing levels with
  | nil => rfl
  | @hidden id e ids rest hget htag _ ih =>
      have hrest := ih fun i hi => hlevels i (List.mem_cons_of_mem _ hi)
      have hnone : tree.markupWithin? levels id = none := by
        cases levels with
        | zero => rfl
        | succ levels =>
            rw [markupWithin?, hget]
            exact if_pos (String.isEmpty_iff.2 htag)
      rw [List.filterMap_cons_none hnone, hrest]
  | @shown id e ids below rest hget htag _ _ ihBelow ihRest =>
      have hrest := ihRest fun i hi => hlevels i (List.mem_cons_of_mem _ hi)
      have hlt := get?_isSome_iff.1 ⟨e, hget⟩
      have hsize := hlevels id List.mem_cons_self
      cases levels with
      | zero => omega
      | succ levels =>
          -- children have greater numbers, so a level less is enough for
          -- them
          have hchildren : ∀ k ∈ e.children,
              tree.size ≤ levels + k.index := by
            intro k hk
            have := hlater id e hget k hk
            omega
          have hbelow := ihBelow hchildren
          have hsome : tree.markupWithin? (levels + 1) id
              = some (.element e.tag e.attributes
                (Markup.ofForest (below.map Prod.snd)).reverse) := by
            rw [markupWithin?, hget]
            simp only
            rw [if_neg (mt String.isEmpty_iff.1 htag), List.filterMap_reverse,
              hbelow]
          rw [List.filterMap_cons_some hsome, hrest]
          rfl

end ElementTree

/-- The markup of a page is what is written of what is seen from its
root. -/
theorem Page.body_eq_renderAll {page : Page α}
    (hlater : ∀ q e, page.tree.get? q = some e →
      ∀ k ∈ e.children, q.index < k.index)
    {seen : Forest (ElementId × Markup.Head)}
    (hseen : page.tree.Sees [page.root] seen) :
    page.body = Markup.renderAll page.remark 0
      (Markup.ofForest (seen.map Prod.snd)).reverse := by
  have hlevels : ∀ id ∈ [page.root],
      page.tree.size ≤ page.tree.size + id.index :=
    fun id _ => Nat.le_add_right _ _
  have hmarkup := hseen.filterMap_markupWithin? hlater hlevels
  rw [← hmarkup, Page.body, ElementTree.markup?]
  cases hroot : page.tree.markupWithin? page.tree.size page.root with
  | none => rw [List.filterMap_cons_none hroot]; rfl
  | some markup =>
      rw [List.filterMap_cons_some hroot]
      show _ = "" ++ Markup.render page.remark 0 markup ++ ""
      rw [String.empty_append, String.append_empty]

/-- Without remarks it is the text of that. -/
theorem Page.body_eq_textOf {page : Page α}
    (hlater : ∀ q e, page.tree.get? q = some e →
      ∀ k ∈ e.children, q.index < k.index)
    (hplain : page.config.get? Configuration.commentTemplate = none)
    {seen : Forest (ElementId × Markup.Head)}
    (hseen : page.tree.Sees [page.root] seen) :
    page.body = Markup.textOf 0 (seen.map Prod.snd) := by
  have hremark : page.remark = {} := by
    rw [Page.remark, hplain]
  rw [Page.body_eq_renderAll hlater hseen, hremark,
    Markup.renderAll_ofForest]

end LayerPage
