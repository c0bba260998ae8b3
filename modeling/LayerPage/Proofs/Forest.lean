/-
Ordered forests: trees side by side, each of them a label on top of the
forest of its children. One induction over a forest goes down into the
children of its first tree and along the trees after it, which is the
way a tree of layers is read: a layer, what is below it, then its next
peer.

A label is a root when no other label is above it, and lies inside the
forest otherwise; `labels` lists both in depth-first order, parents
before children, and `trees` lists them with what is below each.
-/
namespace LayerPage

/-- Trees side by side: the first one has a label on top of the forest of
its children, and the others follow. -/
inductive Forest (β : Type) where
  | nil
  | cons (label : β) (below rest : Forest β)

namespace Forest

variable {β γ : Type}

/-- Number of labels. -/
def size : Forest β → Nat
  | nil => 0
  | cons _ below rest => below.size + rest.size + 1

/-- All labels, depth first, parents before children. -/
def labels : Forest β → List β
  | nil => []
  | cons label below rest => label :: (below.labels ++ rest.labels)

/-- All labels, depth first, each with the forest below it. -/
def trees : Forest β → List (β × Forest β)
  | nil => []
  | cons label below rest => (label, below) :: (below.trees ++ rest.trees)

/-- The labels of the roots. -/
def roots : Forest β → List β
  | nil => []
  | cons label _ rest => label :: rest.roots

/-- The labels below the roots. -/
def inner : Forest β → List β
  | nil => []
  | cons _ below rest => below.labels ++ rest.inner

/-- Two forests side by side. -/
def append : Forest β → Forest β → Forest β
  | nil, other => other
  | cons label below rest, other => cons label below (rest.append other)

instance : Append (Forest β) := ⟨append⟩

/-- The same forest with other labels. -/
def map (f : β → γ) : Forest β → Forest γ
  | nil => nil
  | cons label below rest => cons (f label) (below.map f) (rest.map f)

-- ============================================================ equations

theorem nil_append (other : Forest β) : nil ++ other = other := rfl

theorem cons_append (label : β) (below rest other : Forest β) :
    cons label below rest ++ other = cons label below (rest ++ other) := rfl

theorem append_nil (forest : Forest β) : forest ++ nil = forest := by
  induction forest with
  | nil => rfl
  | cons label below rest _ ihRest => rw [cons_append, ihRest]

@[simp] theorem length_labels (forest : Forest β) :
    forest.labels.length = forest.size := by
  induction forest with
  | nil => rfl
  | cons label below rest ihBelow ihRest =>
      simp only [labels, size, List.length_cons, List.length_append, ihBelow,
        ihRest]

@[simp] theorem length_trees (forest : Forest β) :
    forest.trees.length = forest.size := by
  induction forest with
  | nil => rfl
  | cons label below rest ihBelow ihRest =>
      simp only [trees, size, List.length_cons, List.length_append, ihBelow,
        ihRest]

/-- The trees of a forest, at every depth, have its labels as
their roots. -/
theorem map_fst_trees (forest : Forest β) :
    forest.trees.map Prod.fst = forest.labels := by
  induction forest with
  | nil => rfl
  | cons label below rest ihBelow ihRest =>
      rw [trees, labels, List.map_cons, List.map_append, ihBelow, ihRest]

theorem size_append (forest other : Forest β) :
    (forest ++ other).size = forest.size + other.size := by
  induction forest with
  | nil => exact (Nat.zero_add _).symm
  | cons label below rest _ ihRest =>
      rw [cons_append, size, size, ihRest]
      omega

@[simp] theorem labels_append (forest other : Forest β) :
    (forest ++ other).labels = forest.labels ++ other.labels := by
  induction forest with
  | nil => rfl
  | cons label below rest _ ihRest =>
      rw [cons_append]
      simp only [labels, ihRest, List.cons_append, List.append_assoc]

@[simp] theorem roots_append (forest other : Forest β) :
    (forest ++ other).roots = forest.roots ++ other.roots := by
  induction forest with
  | nil => rfl
  | cons label below rest _ ihRest =>
      rw [cons_append]
      simp only [roots, ihRest, List.cons_append]

/-- Relabelling a forest relabels each node. -/
theorem labels_map (f : β → γ) (forest : Forest β) :
    (forest.map f).labels = forest.labels.map f := by
  induction forest with
  | nil => rfl
  | cons label below rest ihBelow ihRest =>
      simp only [map, labels, List.map_cons, List.map_append, ihBelow,
        ihRest]

-- ====================================================== roots and inside

/-- Every label is a root or lies inside, and none is both. -/
theorem labels_perm (forest : Forest β) :
    forest.labels.Perm (forest.roots ++ forest.inner) := by
  induction forest with
  | nil => exact List.Perm.refl _
  | cons label below rest _ ihRest =>
      refine List.Perm.cons label ?_
      calc (below.labels ++ rest.labels).Perm
            (below.labels ++ (rest.roots ++ rest.inner)) :=
          List.Perm.append_left _ ihRest
        List.Perm _ (rest.roots ++ (below.labels ++ rest.inner)) := by
          rw [← List.append_assoc, ← List.append_assoc]
          exact List.Perm.append_right _ List.perm_append_comm

theorem mem_labels_of_mem_roots {forest : Forest β} {x : β}
    (h : x ∈ forest.roots) : x ∈ forest.labels :=
  forest.labels_perm.mem_iff.2 (List.mem_append_left _ h)

theorem mem_labels_of_mem_inner {forest : Forest β} {x : β}
    (h : x ∈ forest.inner) : x ∈ forest.labels :=
  forest.labels_perm.mem_iff.2 (List.mem_append_right _ h)

end Forest

end LayerPage
