/-
The shape of a built tree, read off the forest of layers alone. Layers
are numbered depth first from some number on, because that is the order
in which elements are created; an `Origin` says which element belongs to
which layer, and which layers were merged into it.

- `outline` is the forest of the elements that stay in the tree: a layer
  that is merged into its parent is left out, and what was below it
  stands in its place;
- `husks` lists the elements of the layers left out.

Between them they use every number (`outline_or_husk`), and the numbers
of an outline ascend in depth-first order (`outline_ascending`), which is
what makes the visits of a built tree follow the order of creation.
-/
import LayerPage.Proofs.Build.Unfolding
import LayerPage.Proofs.Element.Arena

namespace LayerPage

variable {α : Type}

/-- Where an element comes from. -/
structure Origin (α : Type) where
  id : ElementId
  /-- The layer it was made for. -/
  layer : α
  /-- The layers merged into it, in order. -/
  absorbed : List α

/-- The indices of the elements at the roots. -/
def Forest.rootIds (forest : Forest (Origin α)) : List ElementId :=
  forest.roots.map (·.id)

/-- The indices of all elements, depth first. -/
def Forest.ids (forest : Forest (Origin α)) : List ElementId :=
  forest.labels.map (·.id)

theorem Forest.ids_cons (o : Origin α) (below rest : Forest (Origin α)) :
    (Forest.cons o below rest).ids = o.id :: (below.ids ++ rest.ids) := by
  unfold Forest.ids
  rw [Forest.labels, List.map_cons, List.map_append]

/-- The roots are among the elements. -/
theorem Forest.mem_ids_of_mem_rootIds {forest : Forest (Origin α)}
    {id : ElementId} (h : id ∈ forest.rootIds) : id ∈ forest.ids := by
  obtain ⟨o, ho, rfl⟩ := List.mem_map.1 h
  exact List.mem_map_of_mem (Forest.mem_labels_of_mem_roots ho)

@[simp] theorem Forest.rootIds_append (forest other : Forest (Origin α)) :
    (forest ++ other).rootIds = forest.rootIds ++ other.rootIds := by
  unfold Forest.rootIds
  rw [Forest.roots_append, List.map_append]

@[simp] theorem Forest.ids_append (forest other : Forest (Origin α)) :
    (forest ++ other).ids = forest.ids ++ other.ids := by
  unfold Forest.ids
  rw [Forest.labels_append, List.map_append]

/-- In an outline with ascending numbers, no root occurs twice. -/
theorem Forest.rootIds_nodup {forest : Forest (Origin α)}
    (hasc : forest.ids.Pairwise (·.index < ·.index)) :
    (forest.rootIds ++ forest.inner.map (·.id)).Nodup := by
  have hnodup : forest.ids.Nodup := ElementId.nodup_of_ascending hasc
  have hperm : forest.ids.Perm (forest.rootIds ++ forest.inner.map (·.id)) := by
    unfold Forest.ids Forest.rootIds
    rw [← List.map_append]
    exact forest.labels_perm.map _
  exact hperm.nodup hnodup

/-- If numbers go up, nothing below a root has the number of one. -/
theorem Forest.not_mem_rootIds_of_inner {forest : Forest (Origin α)}
    (hasc : forest.ids.Pairwise (·.index < ·.index)) {o : Origin α}
    (ho : o ∈ forest.inner) : o.id ∉ forest.rootIds := by
  intro hroot
  exact (List.nodup_append.1 (Forest.rootIds_nodup hasc)).2.2 o.id hroot
    o.id (List.mem_map_of_mem ho) rfl

namespace Construction

variable [Layer α]

-- ========================================================= merge pairs

/-- Only a folder absorbs. -/
theorem folder_of_mergePair {folder child : α}
    (h : mergePair folder child = true) : Layer.kind folder = .folder := by
  simp only [mergePair, absorbs, Bool.and_eq_true, beq_iff_eq] at h
  exact h.1.1.1

/-- Only a normal layer is absorbed. -/
theorem normal_of_mergePair {folder child : α}
    (h : mergePair folder child = true) : Layer.kind child = .normal := by
  simp only [mergePair, absorbs, Bool.and_eq_true, beq_iff_eq] at h
  exact h.1.1.2

/-- The layers merged into a layer, of the forest below it. -/
def absorbedBy (folder : α) (below : Forest α) : List α :=
  below.roots.filter (mergePair folder)

/-- Only folders absorb, and only normal layers are absorbed: what is
merged into its parent has absorbed nothing itself. -/
theorem absorbedBy_of_mergePair {folder child : α}
    (h : mergePair folder child = true) (below : Forest α) :
    absorbedBy child below = [] := by
  unfold absorbedBy
  rw [List.filter_eq_nil_iff]
  intro grandchild _ hpair
  have hfolder := folder_of_mergePair hpair
  rw [normal_of_mergePair h] at hfolder
  cases hfolder

theorem absorbedBy_cons (folder child : α) (below rest : Forest α) :
    absorbedBy folder (.cons child below rest)
      = (if mergePair folder child = true then [child] else [])
          ++ absorbedBy folder rest := by
  unfold absorbedBy
  rw [Forest.roots, List.filter_cons]
  split
  · rfl
  · rfl

-- ============================================================== outlines

/-- The elements that stay, for the forest below a layer numbered from a
number on. -/
def outline (folder : α) : Nat → Forest α → Forest (Origin α)
  | _, .nil => .nil
  | n, .cons child below rest =>
      let inner := outline child (n + 1) below
      (if mergePair folder child = true then inner
        else .cons ⟨⟨n⟩, child, absorbedBy child below⟩ inner .nil)
        ++ outline folder (n + 1 + below.size) rest

/-- The elements of merged layers, with the layers they were made for. -/
def husks (folder : α) : Nat → Forest α → List (ElementId × α)
  | _, .nil => []
  | n, .cons child below rest =>
      (if mergePair folder child = true then [(⟨n⟩, child)] else [])
        ++ (husks child (n + 1) below
          ++ husks folder (n + 1 + below.size) rest)

-- =============================================================== numbers

theorem outline_ids_cons (folder child : α) (n : Nat)
    (below rest : Forest α) :
    (outline folder n (.cons child below rest)).ids
      = (if mergePair folder child = true then [] else [⟨n⟩])
          ++ ((outline child (n + 1) below).ids
            ++ (outline folder (n + 1 + below.size) rest).ids) := by
  rw [outline, Forest.ids_append]
  split
  · rfl
  · simp [Forest.ids, Forest.labels]

/-- An outline takes its numbers from a range as long as the forest is
large. -/
theorem outline_bounds {folder : α} {n : Nat} {forest : Forest α}
    {id : ElementId} (h : id ∈ (outline folder n forest).ids) :
    n ≤ id.index ∧ id.index < n + forest.size := by
  induction forest generalizing folder n with
  | nil => cases h
  | cons child below rest ihBelow ihRest =>
      rw [Forest.size]
      rw [outline_ids_cons, List.mem_append, List.mem_append] at h
      rcases h with h | h | h
      · split at h
        · cases h
        · rw [List.mem_singleton] at h
          subst h
          simp only
          omega
      · have := ihBelow h
        omega
      · have := ihRest h
        omega

/-- Husks take theirs from the same range. -/
theorem husks_bounds {folder : α} {n : Nat} {forest : Forest α}
    {h : ElementId × α} (hmem : h ∈ husks folder n forest) :
    n ≤ h.1.index ∧ h.1.index < n + forest.size := by
  induction forest generalizing folder n with
  | nil => cases hmem
  | cons child below rest ihBelow ihRest =>
      rw [Forest.size]
      unfold husks at hmem
      rw [List.mem_append, List.mem_append] at hmem
      rcases hmem with hmem | hmem | hmem
      · split at hmem
        · rw [List.mem_singleton] at hmem
          subst hmem
          simp only
          omega
        · cases hmem
      · have := ihBelow hmem
        omega
      · have := ihRest hmem
        omega

/-- Merging makes no outline larger than its forest. -/
theorem outline_size_le (folder : α) (n : Nat) (forest : Forest α) :
    (outline folder n forest).size ≤ forest.size := by
  induction forest generalizing folder n with
  | nil => exact Nat.le_refl 0
  | cons child below rest ihBelow ihRest =>
      have hbelow := ihBelow child (n + 1)
      have hrest := ihRest folder (n + 1 + below.size)
      rw [outline, Forest.size_append, Forest.size]
      split
      · omega
      · simp only [Forest.size]
        omega

/-- Depth first, the numbers of an outline ascend. -/
theorem outline_ascending (folder : α) (n : Nat) (forest : Forest α) :
    (outline folder n forest).ids.Pairwise (·.index < ·.index) := by
  induction forest generalizing folder n with
  | nil => exact List.Pairwise.nil
  | cons child below rest ihBelow ihRest =>
      rw [outline_ids_cons, List.pairwise_append, List.pairwise_append]
      refine ⟨?_, ⟨ihBelow child (n + 1), ihRest folder _, ?_⟩, ?_⟩
      · split
        · exact List.Pairwise.nil
        · exact List.pairwise_singleton _ _
      · intro a ha b hb
        have := outline_bounds ha
        have := outline_bounds hb
        omega
      · intro a ha b hb
        split at ha
        · cases ha
        · rw [List.mem_singleton] at ha
          subst ha
          simp only
          rcases List.mem_append.1 hb with hb | hb
          · have := outline_bounds hb
            omega
          · have := outline_bounds hb
            omega

/-- Every number is the number of an element that stays or of a husk. -/
theorem outline_or_husk (folder : α) {n i : Nat} {forest : Forest α}
    (hlow : n ≤ i) (hhigh : i < n + forest.size) :
    ⟨i⟩ ∈ (outline folder n forest).ids
      ∨ ∃ layer, (⟨i⟩, layer) ∈ husks folder n forest := by
  induction forest generalizing folder n with
  | nil =>
      rw [Forest.size] at hhigh
      omega
  | cons child below rest ihBelow ihRest =>
      rw [Forest.size] at hhigh
      rw [outline_ids_cons, husks]
      have hsplit : i = n ∨ (n + 1 ≤ i ∧ i < n + 1 + below.size)
          ∨ (n + 1 + below.size ≤ i ∧ i < n + 1 + below.size + rest.size) := by
        omega
      rcases hsplit with rfl | ⟨h1, h2⟩ | ⟨h1, h2⟩
      · cases mergePair folder child with
        | true => exact Or.inr ⟨child, by simp⟩
        | false => exact Or.inl (by simp)
      · rcases ihBelow child h1 h2 with h | ⟨layer, h⟩
        · exact Or.inl (List.mem_append_right _ (List.mem_append_left _ h))
        · exact Or.inr ⟨layer, List.mem_append_right _
            (List.mem_append_left _ h)⟩
      · rcases ihRest folder h1 h2 with h | ⟨layer, h⟩
        · exact Or.inl (List.mem_append_right _ (List.mem_append_right _ h))
        · exact Or.inr ⟨layer, List.mem_append_right _
            (List.mem_append_right _ h)⟩

end Construction

end LayerPage
