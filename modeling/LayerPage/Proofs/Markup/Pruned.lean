/-
A page on which one element is not written. An element without a tag
hides all below it, so a tree sees, once an element has lost its name,
what it saw before without the tree of that element (`Sees.effaceAt`):
`Forest.without` leaves out the tree, and nothing else. What is written of
the rest stands together where the element was (`exists_split`), whatever
remarks the settings ask for.
-/
import LayerPage.Proofs.Element.Effaced
import LayerPage.Proofs.Element.Map
import LayerPage.Proofs.Markup.Visible

namespace LayerPage

variable {α β γ : Type}

-- ============================================================== forests

namespace Forest

variable {κ : Type} [DecidableEq κ]

/-- The forest without the trees that have a key on top. -/
def without (key : κ) : Forest (κ × β) → Forest (κ × β)
  | nil => nil
  | cons label below rest =>
    if label.1 = key then rest.without key
    else cons label (below.without key) (rest.without key)

/-- A forest without a label of some key is not changed by pruning that
key. -/
theorem without_of_notMem {key : κ} {forest : Forest (κ × β)}
    (h : key ∉ forest.labels.map Prod.fst) : forest.without key = forest := by
  induction forest with
  | nil => rfl
  | cons label below rest ihBelow ihRest =>
      rw [labels, List.map_cons, List.map_append, List.mem_cons,
        List.mem_append, not_or, not_or] at h
      rw [without, if_neg (Ne.symm h.1), ihBelow h.2.1, ihRest h.2.2]

theorem mem_labels_of_mem_trees {forest : Forest β} {tree : β × Forest β}
    (h : tree ∈ forest.trees) : tree.1 ∈ forest.labels := by
  rw [← map_fst_trees]
  exact List.mem_map_of_mem h

end Forest

-- =============================================================== seeing

namespace ElementTree

variable {tree : ElementTree α} {ids : List ElementId}
  {forest : Forest (ElementId × Markup.Head)}

/-- The layers behind the elements are not seen. -/
theorem Sees.map (h : tree.Sees ids forest) (f : α → β) :
    (tree.map f).Sees ids forest := by
  induction h with
  | nil => exact .nil
  | @hidden id e ids rest hget htag _ ih =>
      have hget' : (tree.map f).get? id = some (e.map f) := by
        rw [get?_map, hget]
        rfl
      exact .hidden hget' htag ih
  | @shown id e ids below rest hget htag _ _ ihBelow ihRest =>
      have hget' : (tree.map f).get? id = some (e.map f) := by
        rw [get?_map, hget]
        rfl
      exact .shown hget' htag ihBelow ihRest

/-- What is seen in a tree does not depend on the layers of its
elements. -/
theorem Sees.of_map {f : α → β} (h : (tree.map f).Sees ids forest) :
    tree.Sees ids forest := by
  induction h with
  | nil => exact .nil
  | hidden hget htag _ ih =>
      rw [get?_map, Option.map_eq_some_iff] at hget
      obtain ⟨e, hget, rfl⟩ := hget
      exact .hidden hget htag ih
  | shown hget htag _ _ ihBelow ihRest =>
      rw [get?_map, Option.map_eq_some_iff] at hget
      obtain ⟨e, hget, rfl⟩ := hget
      exact .shown hget htag ihBelow ihRest

/-- An element that lost its name is not seen, nor is what is below it. -/
theorem Sees.effaceAt (h : tree.Sees ids forest) (k : ElementId) :
    (tree.effaceAt k).Sees ids (forest.without k) := by
  induction h with
  | nil => exact .nil
  | @hidden id e ids rest hget htag _ ih =>
      by_cases hid : id = k
      · subst hid
        have hget' : (tree.effaceAt id).get? id = some e.effaced := by
          rw [get?_effaceAt_self, hget]
          rfl
        exact .hidden hget' rfl ih
      · rw [← get?_effaceAt_of_ne hid] at hget
        exact .hidden hget htag ih
  | @shown id e ids below rest hget htag _ _ ihBelow ihRest =>
      rw [Forest.without]
      by_cases hid : id = k
      · subst hid
        have hget' : (tree.effaceAt id).get? id = some e.effaced := by
          rw [get?_effaceAt_self, hget]
          rfl
        rw [if_pos rfl]
        exact .hidden hget' rfl ihRest
      · rw [← get?_effaceAt_of_ne hid] at hget
        rw [if_neg hid]
        exact .shown hget htag ihBelow ihRest

/-- From an element that is seen the tree under it is seen. -/
theorem Sees.of_mem_trees (h : tree.Sees ids forest)
    {label : ElementId × Markup.Head}
    {below : Forest (ElementId × Markup.Head)}
    (hmem : (label, below) ∈ forest.trees) :
    tree.Sees [label.1] (.cons label below .nil) := by
  induction h with
  | nil => cases hmem
  | hidden _ _ _ ih => exact ih hmem
  | shown hget htag hbelow _ ihBelow ihRest =>
      rcases List.mem_cons.1 hmem with heq | hmem
      · cases heq
        exact .shown hget htag hbelow .nil
      · rcases List.mem_append.1 hmem with hmem | hmem
        · exact ihBelow hmem
        · exact ihRest hmem

end ElementTree

-- ============================================================== writing

namespace Markup

/-- What is written of an element is that of its children between two
texts. -/
theorem exists_render (remark : Remark) (level : Nat) (head : Head) :
    ∃ first last, ∀ children,
      render remark level (.element head.tag head.attributes children)
        = first ++ renderAll remark (level + 1) children ++ last := by
  refine ⟨"<" ++ head.tag ++ attributesText head.attributes ++ ">"
    ++ expand remark.before head.tag head.attributes ++ "\n",
    indent level ++ "</" ++ head.tag ++ ">"
      ++ expand remark.after head.tag head.attributes ++ "\n", ?_⟩
  intro children
  rw [render]
  simp only [String.append_assoc]

/-- What is written of a forest is, but for what is written of one tree in
it, what is written without that tree. -/
theorem exists_split (remark : Remark) (level : Nat) {k : ElementId}
    {head : Head} {inside forest : Forest (ElementId × Head)}
    (hnodup : (forest.labels.map Prod.fst).Nodup)
    (hmem : ((k, head), inside) ∈ forest.trees) :
    ∃ before after depth,
      renderAll remark level (ofForest (forest.map Prod.snd)).reverse
          = before
            ++ (indent depth ++ render remark depth
              (.element head.tag head.attributes
                (ofForest (inside.map Prod.snd)).reverse))
            ++ after
        ∧ renderAll remark level
            (ofForest ((forest.without k).map Prod.snd)).reverse
          = before ++ after := by
  induction forest generalizing level with
  | nil => cases hmem
  | cons label below rest ihBelow ihRest =>
      rw [Forest.labels, List.map_cons, List.map_append, List.nodup_cons,
        List.nodup_append, List.mem_append, not_or] at hnodup
      obtain ⟨⟨hbelow, hrest⟩, hnodupBelow, hnodupRest, hapart⟩ := hnodup
      have hlabel : ∀ {other : Forest (ElementId × Head)},
          ((k, head), inside) ∈ other.trees →
          k ∈ other.labels.map Prod.fst := fun hmem =>
        List.mem_map_of_mem (Forest.mem_labels_of_mem_trees hmem)
      rw [Forest.map, renderAll_ofForest_cons, Forest.without]
      rcases List.mem_cons.1 hmem with heq | hmem
      · -- the tree stands first
        cases heq
        rw [if_pos rfl, Forest.without_of_notMem hrest]
        refine ⟨renderAll remark level
          (ofForest (rest.map Prod.snd)).reverse, "", level, ?_, ?_⟩
        · exact (String.append_empty ..).symm
        · exact (String.append_empty ..).symm
      · rcases List.mem_append.1 hmem with hmem | hmem
        · -- below the first root, so not among the other trees
          have hother : k ∉ rest.labels.map Prod.fst := fun hk =>
            hapart k (hlabel hmem) k hk rfl
          have hne : label.1 ≠ k := fun heq => hbelow (heq ▸ hlabel hmem)
          obtain ⟨before, after, depth, hwith, hwithout⟩ :=
            ihBelow (level + 1) hnodupBelow hmem
          obtain ⟨first, last, hrender⟩ := exists_render remark level label.2
          rw [if_neg hne, Forest.without_of_notMem hother, Forest.map,
            renderAll_ofForest_cons, hrender, hrender, hwith, hwithout]
          refine ⟨renderAll remark level
            (ofForest (rest.map Prod.snd)).reverse ++ indent level ++ first
              ++ before, after ++ last, depth, ?_, ?_⟩
          · simp only [String.append_assoc]
          · simp only [String.append_assoc]
        · -- among the other trees, so not below the first root
          have hother : k ∉ below.labels.map Prod.fst := fun hk =>
            hapart k hk k (hlabel hmem) rfl
          have hne : label.1 ≠ k := fun heq => hrest (heq ▸ hlabel hmem)
          obtain ⟨before, after, depth, hwith, hwithout⟩ :=
            ihRest level hnodupRest hmem
          rw [if_neg hne, Forest.without_of_notMem hother, Forest.map,
            renderAll_ofForest_cons, hwith, hwithout]
          refine ⟨before, _, depth, String.append_assoc .., ?_⟩
          exact String.append_assoc ..

end Markup

-- ================================================================ pages

namespace Page

/-- Whether an element is seen from the root of a page. -/
def Shows (page : Page α) (id : ElementId) : Prop :=
  ∃ seen, page.tree.Sees [page.root] seen
    ∧ id ∈ seen.labels.map Prod.fst

/-- Whether a text is the markup of a page without what is written of an
element and of what is below it. -/
structure LosesSubtree (page : Page α) (id : ElementId) (text : String) :
    Prop where
  hidden : ¬page.Shows id → text = page.body
  shown : page.Shows id → ∃ markup before after level,
    page.tree.markup? id = some markup
      ∧ page.body = before
        ++ (Markup.indent level ++ markup.render page.remark level)
        ++ after
      ∧ text = before ++ after

variable {page : Page α}

/-- The text without a subtree is what is written of what is seen without
it. -/
theorem losesSubtree
    (hlater : ∀ q e, page.tree.get? q = some e →
      ∀ child ∈ e.children, q.index < child.index)
    {seen : Forest (ElementId × Markup.Head)}
    (hseen : page.tree.Sees [page.root] seen)
    (hnodup : (seen.labels.map Prod.fst).Nodup) (id : ElementId) :
    page.LosesSubtree id (Markup.renderAll page.remark 0
      (Markup.ofForest ((seen.without id).map Prod.snd)).reverse) := by
  have hbody := body_eq_renderAll hlater hseen
  constructor
  · -- what is not seen is not missed
    intro hhidden
    have hnone : id ∉ seen.labels.map Prod.fst := fun hmem =>
      hhidden ⟨seen, hseen, hmem⟩
    rw [Forest.without_of_notMem hnone, hbody]
  · intro hshown
    obtain ⟨seen', hseen', hmem⟩ := hshown
    obtain rfl := hseen.unique hseen'
    rw [← Forest.map_fst_trees, List.map_map] at hmem
    obtain ⟨⟨⟨k, head⟩, inside⟩, htree, heq⟩ := List.mem_map.1 hmem
    obtain rfl : k = id := heq
    -- what is written parts into the subtree and what is around it
    obtain ⟨before, after, level, hwith, hwithout⟩ :=
      Markup.exists_split page.remark 0 hnodup htree
    have hmarkup := (hseen.of_mem_trees htree).filterMap_markupWithin? hlater
      fun i _ => Nat.le_add_right page.tree.size i.index
    refine ⟨_, before, after, level, ?_, hbody.trans hwith, hwithout⟩
    rw [ElementTree.markup?]
    cases hroot : page.tree.markupWithin? page.tree.size k with
    | none =>
        rw [List.filterMap_cons_none hroot] at hmarkup
        cases hmarkup
    | some markup =>
        rw [List.filterMap_cons_some hroot] at hmarkup
        rw [(List.cons.inj hmarkup).1]

end Page

end LayerPage
