/-
The links of a tree, apart from everything else that elements hold: whose
child an element is, and what it has recorded as its parent. Each
operation becomes one equation about `childrenOf` and one about
`parentId?`. They hold for any two elements, whatever the links between
them were before, an element and itself included.

# Forests

Nothing in the array of elements keeps the links from contradicting each
other. `IsForest` is what rules that out, and it is weaker than being
well-formed: an element outside may still hold on to a parent that has
given it up. That elements have no more than finitely many others above
them is not a part of it but a consequence, and it is this that makes
visits end (`IsForest.visit`): the elements above the visited one are all
different, so there are never more of them than the tree has elements.
-/
import LayerPage.Proofs.Element.WellFormed
import Mathlib.Data.List.Perm.Subperm
import Mathlib.Logic.Relation

namespace LayerPage.ElementTree

variable {α : Type}

-- ======================================================= single writes

/-- Children are changed where an element is. A change that makes nothing
of no children may be made anywhere. -/
theorem childrenOf_modify {tree : ElementTree α} {id : ElementId}
    {f : Element α → Element α} {g : List ElementId → List ElementId}
    (hf : ∀ e, (f e).children = g e.children)
    (hg : tree.get? id = none → g [] = []) (i : ElementId) :
    (tree.modify id f).childrenOf i
      = if i = id then g (tree.childrenOf i) else tree.childrenOf i := by
  unfold childrenOf
  rw [get?_modify]
  by_cases hi : i = id
  · subst hi
    rw [if_pos rfl, if_pos rfl]
    cases hget : tree.get? i with
    | none => exact (hg hget).symm
    | some e => exact hf e
  · rw [if_neg hi, if_neg hi]

/-- A change to one element is a change to its parent alone, as far as
parents go. -/
theorem parentId?_modify {tree : ElementTree α} {id : ElementId}
    {f : Element α → Element α} {g : Option ElementId → Option ElementId}
    (hf : ∀ e, (f e).parent? = g e.parent?)
    (hg : tree.get? id = none → g none = none) (i : ElementId) :
    (tree.modify id f).parentId? i
      = if i = id then g (tree.parentId? i) else tree.parentId? i := by
  unfold parentId?
  rw [get?_modify]
  by_cases hi : i = id
  · subst hi
    rw [if_pos rfl, if_pos rfl]
    cases hget : tree.get? i with
    | none => exact (hg hget).symm
    | some e => exact hf e
  · rw [if_neg hi, if_neg hi]

/-- A change that leaves the children of an element alone leaves those of
all alone. -/
theorem childrenOf_modify_same {tree : ElementTree α} {id : ElementId}
    {f : Element α → Element α} (hf : ∀ e, (f e).children = e.children)
    (i : ElementId) :
    (tree.modify id f).childrenOf i = tree.childrenOf i := by
  rw [childrenOf_modify (g := fun children => children) hf fun _ => rfl]
  exact ite_self _

/-- A change that leaves the parent of an element alone leaves those of all
alone. -/
theorem parentId?_modify_same {tree : ElementTree α} {id : ElementId}
    {f : Element α → Element α} (hf : ∀ e, (f e).parent? = e.parent?)
    (i : ElementId) :
    (tree.modify id f).parentId? i = tree.parentId? i := by
  rw [parentId?_modify (g := fun parent? => parent?) hf fun _ => rfl]
  exact ite_self _

/-- An element that is a child or has a parent is one of the tree. -/
theorem lt_size_of_parentId? {tree : ElementTree α} {id p : ElementId}
    (h : tree.parentId? id = some p) : id.index < tree.size := by
  obtain ⟨e, hget, -⟩ := Option.bind_eq_some_iff.1 h
  exact get?_isSome_iff.1 ⟨e, hget⟩

/-- A new element brings its children with it. -/
theorem childrenOf_insert (tree : ElementTree α) (e : Element α)
    (i : ElementId) :
    (tree.insert e).1.childrenOf i
      = if i.index = tree.size then e.children else tree.childrenOf i := by
  unfold childrenOf
  rw [get?_insert]
  split
  · rfl
  · rfl

-- ========================================================== appending

/-- Appending adds to the children of the parent, at their end. -/
theorem childrenOf_appendChild {tree : ElementTree α} {parent : ElementId}
    (hparent : parent.index < tree.size) (child i : ElementId) :
    (tree.appendChild parent child).childrenOf i
      = if i = parent then tree.childrenOf i ++ [child]
        else tree.childrenOf i := by
  unfold appendChild
  rw [childrenOf_modify_same]
  · apply childrenOf_modify (g := (· ++ [child]))
    · exact fun _ => rfl
    · intro hget
      exact absurd hparent (Nat.not_lt.2 (get?_eq_none_iff.1 hget))
  · exact fun _ => rfl

/-- Appending a child makes the parent that of the child. -/
theorem parentId?_appendChild {tree : ElementTree α} {child : ElementId}
    (hchild : child.index < tree.size) (parent i : ElementId) :
    (tree.appendChild parent child).parentId? i
      = if i = child then some parent else tree.parentId? i := by
  unfold appendChild
  rw [parentId?_modify (g := fun _ => some parent),
    parentId?_modify_same]
  · exact fun _ => rfl
  · exact fun _ => rfl
  · intro hget
    rw [get?_eq_none_iff, size_modify] at hget
    exact absurd hchild (Nat.not_lt.2 hget)

/-- Handed over one by one, children stand behind the parent's own. -/
theorem childrenOf_foldl_appendChild {tree : ElementTree α}
    {parent : ElementId} (hparent : parent.index < tree.size)
    (children : List ElementId) (i : ElementId) :
    (children.foldl (fun tree child => tree.appendChild parent child)
      tree).childrenOf i
      = if i = parent then tree.childrenOf i ++ children
        else tree.childrenOf i := by
  induction children generalizing tree with
  | nil => rw [List.foldl_nil, List.append_nil, ite_self]
  | cons child rest ih =>
      rw [List.foldl_cons, ih (by rw [size_appendChild]; exact hparent),
        childrenOf_appendChild hparent]
      by_cases hi : i = parent
      · simp only [if_pos hi, List.append_assoc, List.singleton_append]
      · simp only [if_neg hi]

/-- Children that are appended one after another have the same parent. -/
theorem parentId?_foldl_appendChild {tree : ElementTree α}
    {children : List ElementId}
    (hchildren : ∀ child ∈ children, child.index < tree.size)
    (parent i : ElementId) :
    (children.foldl (fun tree child => tree.appendChild parent child)
      tree).parentId? i
      = if i ∈ children then some parent else tree.parentId? i := by
  induction children generalizing tree with
  | nil => rw [List.foldl_nil, if_neg List.not_mem_nil]
  | cons child rest ih =>
      obtain ⟨hchild, hrest⟩ := List.forall_mem_cons.1 hchildren
      rw [List.foldl_cons, ih (by rw [size_appendChild]; exact hrest),
        parentId?_appendChild hchild]
      by_cases hi : i = child
      · rw [if_pos hi, ite_self, if_pos (hi ▸ List.mem_cons_self)]
      · rw [if_neg hi]
        by_cases hmem : i ∈ rest
        · rw [if_pos hmem, if_pos (List.mem_cons_of_mem _ hmem)]
        · rw [if_neg hmem, if_neg]
          intro hcons
          rcases List.mem_cons.1 hcons with hself | hlater
          · exact hi hself
          · exact hmem hlater

-- ============================================================= merging

/-- Detaching takes an element from the children of its parent. -/
theorem childrenOf_detach (tree : ElementTree α) (id i : ElementId) :
    (tree.detach id).childrenOf i
      = if tree.parentId? id = some i then
          (tree.childrenOf i).filter (· ≠ id)
        else tree.childrenOf i := by
  unfold detach parentId?
  rw [childrenOf_modify_same]
  · cases (tree.get? id).bind (·.parent?) with
    | none => rw [if_neg (Option.some_ne_none i).symm]
    | some parent =>
        simp only [Option.some.injEq, eq_comm (a := parent)]
        apply childrenOf_modify (g := List.filter (· ≠ id))
        · exact fun _ => rfl
        · exact fun _ => rfl
  · exact fun _ => rfl

/-- Detaching leaves the element without a parent, and no other one. -/
theorem parentId?_detach (tree : ElementTree α) (id i : ElementId) :
    (tree.detach id).parentId? i
      = if i = id then none else tree.parentId? i := by
  unfold detach
  rw [parentId?_modify (g := fun _ => none)]
  · cases (tree.get? id).bind (·.parent?) with
    | none => rfl
    | some parent =>
        simp only
        rw [parentId?_modify_same]
        exact fun _ => rfl
  · exact fun _ => rfl
  · exact fun _ => rfl

/-- A merge after the child was taken out: its children are handed over
by a tree where it has none, and where the target holds all that it takes
over. -/
theorem merge_of_detached {tree : ElementTree α} {target child : ElementId}
    {absorbed : Element α}
    (hget : (tree.detach child).get? child = some absorbed) :
    tree.merge target child
      = absorbed.children.foldl
          (fun tree grandchild => tree.appendChild target grandchild)
          (((tree.detach child).modify child fun e =>
              { e with children := [], style := e.style.cleared }).modify
            target fun e => e.takeOver absorbed) := by
  unfold merge
  simp only [hget]
  rfl

/-- A merge with an element that is not there is no more than
detaching it. -/
theorem merge_of_no_child {tree : ElementTree α} {target child : ElementId}
    (hget : (tree.detach child).get? child = none) :
    tree.merge target child = tree.detach child := by
  unfold merge
  simp only [hget]

/-- What the target of a merge gets is what the absorbed element has left
when it is taken out. -/
theorem childrenOf_merge {tree : ElementTree α} {target child : ElementId}
    (htarget : target.index < tree.size) (hne : target ≠ child)
    (i : ElementId) :
    (tree.merge target child).childrenOf i
      = if i = target then (tree.detach child).childrenOf i
          ++ (tree.detach child).childrenOf child
        else if i = child then [] else (tree.detach child).childrenOf i := by
  cases hget : (tree.detach child).get? child with
  | none =>
      have hnone : (tree.detach child).childrenOf child = [] := by
        rw [childrenOf, hget]
        rfl
      rw [merge_of_no_child hget, hnone, List.append_nil]
      by_cases hc : i = child
      · rw [if_pos hc, hc, hnone, ite_self]
      · rw [if_neg hc, ite_self]
  | some absorbed =>
      rw [merge_of_detached hget, childrenOf_foldl_appendChild,
        childrenOf_modify_same, childrenOf_modify (g := fun _ => []),
        childrenOf_of_get? hget]
      · by_cases ht : i = target
        · rw [if_pos ht, if_pos ht, if_neg (ht ▸ hne)]
        · rw [if_neg ht, if_neg ht]
      · exact fun _ => rfl
      · exact fun _ => rfl
      · exact fun _ => rfl
      · rw [size_modify, size_modify, size_detach]
        exact htarget

/-- A merge makes the target the parent of all that were children of the
absorbed element. -/
theorem parentId?_merge {tree : ElementTree α} {target child : ElementId}
    (hchildren : ∀ k ∈ (tree.detach child).childrenOf child,
      k.index < tree.size) (i : ElementId) :
    (tree.merge target child).parentId? i
      = if i ∈ (tree.detach child).childrenOf child then some target
        else (tree.detach child).parentId? i := by
  cases hget : (tree.detach child).get? child with
  | none =>
      rw [merge_of_no_child hget, if_neg]
      rw [childrenOf, hget]
      exact List.not_mem_nil
  | some absorbed =>
      rw [childrenOf_of_get? hget] at hchildren ⊢
      rw [merge_of_detached hget, parentId?_foldl_appendChild,
        parentId?_modify_same, parentId?_modify_same]
      · exact fun _ => rfl
      · exact fun _ => rfl
      · rw [size_modify, size_modify, size_detach]
        exact hchildren

-- ============================================================== forests

/-- One element stands above another: this is a child of its, or a child
of one below it. -/
def Above (tree : ElementTree α) : ElementId → ElementId → Prop :=
  Relation.TransGen fun p k => k ∈ tree.childrenOf p

/-- The links of a tree form a forest: nothing is anybody's child twice,
nor a child of any element but its recorded parent, and nothing stands
above itself. -/
structure IsForest (tree : ElementTree α) : Prop where
  children_nodup : ∀ p, (tree.childrenOf p).Nodup
  parent_of_child : ∀ p k, k ∈ tree.childrenOf p →
    tree.parentId? k = some p
  not_above_self : ∀ id, ¬ tree.Above id id

/-- Where children come later than parents, so does everything below. -/
theorem Above.index_lt {tree : ElementTree α} {a b : ElementId}
    (hab : tree.Above a b)
    (h : ∀ p k, k ∈ tree.childrenOf p → p.index < k.index) :
    a.index < b.index := by
  induction hab with
  | single hk => exact h _ _ hk
  | tail _ hk ih => exact Nat.lt_trans ih (h _ _ hk)

/-- What has children is there. -/
theorem exists_get?_of_mem_childrenOf {tree : ElementTree α}
    {p k : ElementId} (hk : k ∈ tree.childrenOf p) :
    ∃ e, tree.get? p = some e ∧ k ∈ e.children := by
  unfold childrenOf at hk
  cases hget : tree.get? p with
  | none =>
      rw [hget] at hk
      cases hk
  | some e =>
      rw [hget] at hk
      exact ⟨e, rfl, hk⟩

/-- Children come after their parents. -/
theorem WellFormed.childrenOf_lt {tree : ElementTree α} {root : ElementId}
    (h : tree.WellFormed root) (p k : ElementId)
    (hk : k ∈ tree.childrenOf p) : p.index < k.index := by
  obtain ⟨e, hget, hmem⟩ := exists_get?_of_mem_childrenOf hk
  exact h.index_lt_of_child hget hmem

/-- A well-formed tree is a forest. -/
theorem WellFormed.isForest {tree : ElementTree α} {root : ElementId}
    (h : tree.WellFormed root) : tree.IsForest := by
  constructor
  · intro p
    unfold childrenOf
    cases hget : tree.get? p with
    | none => exact List.nodup_nil
    | some e => exact h.children_nodup hget
  · intro p k hk
    obtain ⟨e, hget, hmem⟩ := exists_get?_of_mem_childrenOf hk
    obtain ⟨ek, hgetk, hparent, -⟩ := h.child hget hmem
    rw [parentId?, hgetk]
    exact hparent
  · intro id hself
    exact Nat.lt_irrefl _ (hself.index_lt h.childrenOf_lt)

-- =============================================================== visits

/-- Two visits one after the other. -/
theorem Visit.append {tree : ElementTree α}
    {pending visited pending' visited' : List ElementId}
    (h : tree.Visit pending visited) (h' : tree.Visit pending' visited') :
    tree.Visit (pending ++ pending') (visited ++ visited') := by
  induction h with
  | done => exact h'
  | step hget _ ih =>
      rw [List.append_assoc] at ih
      exact .step hget ih

/-- Visiting some elements is visiting each of them, one after another. -/
theorem Visit.flatMap {tree : ElementTree α} {ids : List ElementId}
    {visited : ElementId → List ElementId}
    (h : ∀ id ∈ ids, tree.Visit [id] (visited id)) :
    tree.Visit ids (ids.flatMap visited) := by
  induction ids with
  | nil => exact .done
  | cons id rest ih =>
      obtain ⟨hid, hrest⟩ := List.forall_mem_cons.1 h
      exact hid.append (ih hrest)

/-- A visit that ends has met nothing that stands above itself. -/
theorem Visit.not_above_self {tree : ElementTree α}
    {pending visited : List ElementId} (h : tree.Visit pending visited) :
    ∀ id ∈ pending, ¬ tree.Above id id := by
  have hacc : ∀ id ∈ pending,
      Acc (fun k p => k ∈ tree.childrenOf p) id := by
    induction h with
    | done => exact fun id hid => absurd hid List.not_mem_nil
    | @step id e pending visited hget _ ih =>
        obtain ⟨hchildren, hpending⟩ := List.forall_mem_append.1 ih
        refine List.forall_mem_cons.2 ⟨?_, hpending⟩
        constructor
        intro k hk
        rw [childrenOf_of_get? hget] at hk
        exact hchildren k hk
  intro id hid hself
  have htrans := Relation.transGen_swap.2 hself
  have hirrefl : ∀ a, Acc (Relation.TransGen
      fun k p => k ∈ tree.childrenOf p) a →
      ¬ Relation.TransGen (fun k p => k ∈ tree.childrenOf p) a a := by
    intro a ha
    induction ha with
    | intro a _ ih => exact fun haa => ih a haa haa
  exact hirrefl id (hacc id hid).transGen htrans

namespace IsForest

variable {tree : ElementTree α}

/-- In a forest all children are there. -/
theorem child_lt (h : tree.IsForest) {p k : ElementId}
    (hk : k ∈ tree.childrenOf p) : k.index < tree.size :=
  lt_size_of_parentId? (h.parent_of_child p k hk)

/-- The visit of an element with so many others above it that, with the
levels that are left, they exhaust the tree. -/
theorem visit_within (h : tree.IsForest) {levels : Nat}
    {above : List ElementId} {id : ElementId}
    (hid : id.index < tree.size) (hnodup : above.Nodup)
    (habove : ∀ a ∈ above, a.index < tree.size ∧ tree.Above a id)
    (hlevels : tree.size ≤ levels + above.length) :
    tree.Visit [id] (tree.descendantsWithin levels id) := by
  have hpath : (id :: above).Nodup := by
    refine List.nodup_cons.2 ⟨?_, hnodup⟩
    intro hmem
    exact h.not_above_self id (habove id hmem).2
  induction levels generalizing above id with
  | zero =>
      -- with the visited one there are more than there are elements
      exfalso
      have hsub : id :: above ⊆ tree.ids := by
        intro a ha
        rw [mem_ids_iff]
        rcases List.mem_cons.1 ha with hself | hmem
        · rw [hself]
          exact hid
        · exact (habove a hmem).1
      have hle := (List.subperm_of_subset hpath hsub).length_le
      simp only [ids, List.length_map, List.length_range,
        List.length_cons] at hle
      omega
  | succ levels ih =>
      obtain ⟨e, hget⟩ := get?_isSome_iff.2 hid
      rw [descendantsWithin]
      refine .step hget ?_
      rw [List.append_nil, hget]
      apply Visit.flatMap
      intro k hk
      have hmem : k ∈ tree.childrenOf id := by
        rw [childrenOf_of_get? hget]
        exact hk
      have hstep : tree.Above id k := .single hmem
      have habove' : ∀ a ∈ id :: above,
          a.index < tree.size ∧ tree.Above a k := by
        intro a ha
        rcases List.mem_cons.1 ha with hself | hrest
        · rw [hself]
          exact ⟨hid, hstep⟩
        · obtain ⟨hlt, hup⟩ := habove a hrest
          exact ⟨hlt, hup.trans hstep⟩
      apply ih (h.child_lt hmem) hpath habove'
      · rw [List.length_cons]
        omega
      · refine List.nodup_cons.2 ⟨?_, hpath⟩
        intro hself
        exact h.not_above_self k (habove' k hself).2

/-- In a forest the visit from any element ends, with its descendants. -/
theorem visit (h : tree.IsForest) {id : ElementId}
    (hid : id.index < tree.size) :
    tree.Visit [id] (tree.descendants id) :=
  h.visit_within hid List.nodup_nil
    (fun _ ha => absurd ha List.not_mem_nil) (Nat.le_refl _)

end IsForest

end LayerPage.ElementTree
