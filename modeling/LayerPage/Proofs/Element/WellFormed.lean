/-
Well-formed trees of elements: the statement of what building promises,
and what follows from it for an element, its parent and its children.
Layout and heuristics never touch a link, so they rely on it throughout.

`Visit` is the way elements are visited, as a relation: a derivation is a
run that ends. On a tree with a cycle there is none, and the list that
`descendants` computes down to a number of levels means nothing; on a
well-formed tree that list is what the visit from the root returns.
-/
import LayerPage.Proofs.Element.Arena

namespace LayerPage.ElementTree

variable {α : Type}

/-- A visit of pending elements that comes to an end: the first of them is
visited, and its children take its place, in front of the others. -/
inductive Visit (tree : ElementTree α) :
    (pending visited : List ElementId) → Prop
  | done : Visit tree [] []
  | step {id : ElementId} {e : Element α}
      {pending visited : List ElementId} :
      tree.get? id = some e → Visit tree (e.children ++ pending) visited →
      Visit tree (id :: pending) (id :: visited)

/-- The index of an element's parent. -/
def parentId? (tree : ElementTree α) (id : ElementId) : Option ElementId :=
  (tree.get? id).bind (·.parent?)

/-- Whether an index is that of an attached element. -/
def isAttached (tree : ElementTree α) (id : ElementId) : Bool :=
  (tree.get? id).any (!·.detached)

/-- The attached elements in the order of creation. -/
def attached (tree : ElementTree α) : List ElementId :=
  tree.ids.filter tree.isAttached

/-- What building promises about a tree and its root. -/
structure WellFormed (tree : ElementTree α) (root : ElementId) : Prop where
  /-- The root is the first element. -/
  root_first : root = ⟨0⟩
  /-- The root has no parent, and it is attached. -/
  root_get : ∃ e, tree.get? root = some e ∧ e.parent? = none
    ∧ e.detached = false
  /-- The root is nobody's child. -/
  root_free : ∀ q eq, tree.get? q = some eq → root ∉ eq.children
  /-- Only elements are children. -/
  child_lt : ∀ q eq, tree.get? q = some eq →
    ∀ k ∈ eq.children, k.index < tree.size
  /-- A detached element has no links and declares nothing. -/
  detached_empty : ∀ id e, tree.get? id = some e → e.detached = true →
    e.parent? = none ∧ e.children = [] ∧ e.siblings = []
      ∧ e.style.isEmpty = true
  /-- A detached element is in no list of children or siblings. -/
  detached_free : ∀ id e, tree.get? id = some e → e.detached = true →
    ∀ q eq, tree.get? q = some eq → id ∉ eq.children ∧ id ∉ eq.siblings
  /-- An attached element other than the root has an attached parent,
  which was created before it; it is among the parent's children once,
  nobody else's child, and has these children as its siblings. -/
  attached_child : ∀ id e, tree.get? id = some e → e.detached = false →
    id ≠ root → ∃ p ep, e.parent? = some p ∧ tree.get? p = some ep
      ∧ ep.detached = false ∧ p.index < id.index
      ∧ e.siblings = ep.children
      ∧ ∀ q eq, tree.get? q = some eq →
          eq.children.count id = if q = p then 1 else 0
  /-- The visit from the root ends and returns the descendants. -/
  visit_root : tree.Visit [root] (tree.descendants root)
  /-- The descendants of the root are the attached elements. -/
  descendants_root : tree.descendants root = tree.attached
  /-- They are visited in the order of creation. -/
  ascending : (tree.descendants root).Pairwise (·.index < ·.index)

/-- A visit goes the same way in a tree with the same children. -/
theorem Visit.congr {t t' : ElementTree α}
    (h : ∀ {id e}, t.get? id = some e →
      ∃ e', t'.get? id = some e' ∧ e'.children = e.children)
    {pending visited : List ElementId} (hvisit : t.Visit pending visited) :
    t'.Visit pending visited := by
  induction hvisit with
  | done => exact .done
  | step hget _ ih =>
      obtain ⟨e', hget', hchildren⟩ := h hget
      refine .step hget' ?_
      rw [hchildren]
      exact ih

theorem isAttached_iff {tree : ElementTree α} {id : ElementId} :
    tree.isAttached id = true
      ↔ ∃ e, tree.get? id = some e ∧ e.detached = false := by
  unfold isAttached
  cases tree.get? id with
  | none => simp
  | some e => simp

/-- The attached elements are those that the tree holds and that are not
detached. -/
theorem mem_attached_iff {tree : ElementTree α} {id : ElementId} :
    id ∈ tree.attached
      ↔ ∃ e, tree.get? id = some e ∧ e.detached = false := by
  unfold attached
  rw [List.mem_filter, isAttached_iff]
  constructor
  · exact fun h => h.2
  · intro h
    refine ⟨?_, h⟩
    obtain ⟨e, hget, -⟩ := h
    exact mem_ids_iff.2 (get?_isSome_iff.1 ⟨e, hget⟩)

/-- The identifiers of a tree ascend. -/
theorem ids_ascending (tree : ElementTree α) :
    tree.ids.Pairwise (·.index < ·.index) := by
  unfold ids
  rw [List.pairwise_map]
  exact List.pairwise_lt_range

theorem attached_ascending (tree : ElementTree α) :
    tree.attached.Pairwise (·.index < ·.index) :=
  tree.ids_ascending.filter _

namespace WellFormed

variable {tree : ElementTree α} {root : ElementId}

/-- A child points back to its parent and knows its peers. -/
theorem child (h : tree.WellFormed root) {q k : ElementId} {eq : Element α}
    (hget : tree.get? q = some eq) (hk : k ∈ eq.children) :
    ∃ e, tree.get? k = some e ∧ e.parent? = some q
      ∧ e.siblings = eq.children ∧ e.detached = false
      ∧ q.index < k.index := by
  obtain ⟨e, hgetk⟩ := get?_isSome_iff.2 (h.child_lt q eq hget k hk)
  have hattached : e.detached = false := by
    cases hd : e.detached with
    | false => rfl
    | true => exact absurd hk (h.detached_free k e hgetk hd q eq hget).1
  have hroot : k ≠ root := by
    rintro rfl
    exact h.root_free q eq hget hk
  obtain ⟨p, ep, hparent, hgetp, -, hlt, hsiblings, hcount⟩ :=
    h.attached_child k e hgetk hattached hroot
  have hqp : q = p := by
    have hpos := List.count_pos_iff.2 hk
    rw [hcount q eq hget] at hpos
    split at hpos
    · assumption
    · exact absurd hpos (Nat.lt_irrefl 0)
  subst hqp
  rw [hget] at hgetp
  cases hgetp
  exact ⟨e, hgetk, hparent, hsiblings, hattached, hlt⟩

/-- A child was created after its parent. -/
theorem index_lt_of_child (h : tree.WellFormed root) {q k : ElementId}
    {eq : Element α} (hget : tree.get? q = some eq) (hk : k ∈ eq.children) :
    q.index < k.index := by
  obtain ⟨-, -, -, -, -, hlt⟩ := h.child hget hk
  exact hlt

/-- A parent has the element among its children. -/
theorem parent (h : tree.WellFormed root) {id p : ElementId} {e : Element α}
    (hget : tree.get? id = some e) (hparent : e.parent? = some p) :
    ∃ ep, tree.get? p = some ep ∧ id ∈ ep.children
      ∧ e.siblings = ep.children ∧ ep.detached = false
      ∧ p.index < id.index := by
  have hattached : e.detached = false := by
    cases hd : e.detached with
    | false => rfl
    | true =>
        rw [(h.detached_empty id e hget hd).1] at hparent
        cases hparent
  have hroot : id ≠ root := by
    rintro rfl
    obtain ⟨e', hget', hnone, -⟩ := h.root_get
    rw [hget] at hget'
    cases hget'
    rw [hnone] at hparent
    cases hparent
  obtain ⟨p', ep, hparent', hgetp, hep, hlt, hsiblings, hcount⟩ :=
    h.attached_child id e hget hattached hroot
  rw [hparent] at hparent'
  cases hparent'
  refine ⟨ep, hgetp, ?_, hsiblings, hep, hlt⟩
  rw [← List.count_pos_iff, hcount p ep hgetp, if_pos rfl]
  exact Nat.one_pos

/-- Parents come first. -/
theorem parentId?_lt (h : tree.WellFormed root) {id p : ElementId}
    (hparent : tree.parentId? id = some p) : p.index < id.index := by
  obtain ⟨e, hget, hp⟩ := Option.bind_eq_some_iff.1 hparent
  obtain ⟨-, -, -, -, -, hlt⟩ := h.parent hget hp
  exact hlt

/-- An element with a parent is attached, and so is the parent. -/
theorem isAttached_of_parentId? (h : tree.WellFormed root)
    {id p : ElementId} (hparent : tree.parentId? id = some p) :
    tree.isAttached id = true ∧ tree.isAttached p = true := by
  obtain ⟨e, hget, hp⟩ := Option.bind_eq_some_iff.1 hparent
  obtain ⟨ep, hgetp, hmem, -, hep, -⟩ := h.parent hget hp
  obtain ⟨e', hget', -, -, hattached, -⟩ := h.child hgetp hmem
  exact ⟨isAttached_iff.2 ⟨e', hget', hattached⟩,
    isAttached_iff.2 ⟨ep, hgetp, hep⟩⟩

/-- Only the root has no parent. -/
theorem eq_root_of_parentId? (h : tree.WellFormed root) {id : ElementId}
    (hid : tree.isAttached id = true) (hparent : tree.parentId? id = none) :
    id = root := by
  obtain ⟨e, hget, hattached⟩ := isAttached_iff.1 hid
  apply Decidable.byContradiction
  intro hne
  obtain ⟨p, -, hp, -⟩ := h.attached_child id e hget hattached hne
  rw [parentId?, hget, Option.bind_some, hp] at hparent
  cases hparent

/-- No element is anybody's child twice. -/
theorem children_nodup (h : tree.WellFormed root) {q : ElementId}
    {eq : Element α} (hget : tree.get? q = some eq) :
    eq.children.Nodup := by
  rw [List.nodup_iff_count]
  intro k
  by_cases hk : k ∈ eq.children
  · obtain ⟨e, hgetk, hparent, -, hattached, -⟩ := h.child hget hk
    have hroot : k ≠ root := by
      rintro rfl
      exact h.root_free q eq hget hk
    obtain ⟨p, ep, -, -, -, -, -, hcount⟩ :=
      h.attached_child k e hgetk hattached hroot
    rw [hcount q eq hget]
    split
    · exact Nat.le_refl 1
    · exact Nat.zero_le 1
  · rw [List.count_eq_zero_of_not_mem hk]
    exact Nat.zero_le 1

end WellFormed

end LayerPage.ElementTree
