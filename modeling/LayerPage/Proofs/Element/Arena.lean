/-
What each operation on a tree of elements does to the element at an
index. The operations work on one array in sequence; here each of them
becomes one equation about `get?`, so that later proofs see the tree as
a function from indices to elements and never open the array.

The equation of `merge` is stated for the one place where it is used: a
child taken into its own parent. Both are changed, the children of the
absorbed element get a new parent, and every other element stays.
-/
import LayerPage.Element.Tree

namespace LayerPage

variable {α : Type}

/-- What ascends has nothing twice. -/
theorem ElementId.nodup_of_ascending {ids : List ElementId}
    (h : ids.Pairwise (·.index < ·.index)) : ids.Nodup := by
  refine h.imp ?_
  intro a b hlt heq
  rw [heq] at hlt
  exact Nat.lt_irrefl _ hlt

-- =========================================================== elements

namespace Element

/-- What an element takes over from one that it absorbs, its place in
the tree apart. -/
def takeOver (e absorbed : Element α) : Element α :=
  { e with
    attributes := e.attributes.overlay absorbed.attributes
    layer := absorbed.layer
    style := e.style.pinAll absorbed.style.pinned }

/-- What is left of an element that was absorbed. -/
def husk (e : Element α) : Element α :=
  { e with
    parent? := none, children := [], detached := true
    style := e.style.cleared }

end Element

namespace ElementTree

-- ======================================================= reading the tree

/-- The indices of an element's children; none where no element is. -/
def childrenOf (tree : ElementTree α) (id : ElementId) : List ElementId :=
  ((tree.get? id).map (·.children)).getD []

theorem childrenOf_of_get? {tree : ElementTree α} {id : ElementId}
    {e : Element α} (h : tree.get? id = some e) :
    tree.childrenOf id = e.children := by
  rw [childrenOf, h]
  rfl

/-- The elements are those with an index below the size. -/
theorem get?_isSome_iff {tree : ElementTree α} {id : ElementId} :
    (∃ e, tree.get? id = some e) ↔ id.index < tree.size := by
  unfold get? size
  rw [← Option.isSome_iff_exists]
  simp

/-- Beyond the size there is nothing. -/
theorem get?_eq_none_iff {tree : ElementTree α} {id : ElementId} :
    tree.get? id = none ↔ tree.size ≤ id.index := by
  unfold get? size
  simp

theorem mem_ids_iff {tree : ElementTree α} {id : ElementId} :
    id ∈ tree.ids ↔ id.index < tree.size := by
  unfold ids
  rw [List.mem_map]
  constructor
  · rintro ⟨i, hi, rfl⟩
    exact List.mem_range.1 hi
  · intro h
    exact ⟨id.index, List.mem_range.2 h, rfl⟩

/-- A tree is the function from indices to elements. -/
theorem ext_get? {t t' : ElementTree α} (h : ∀ id, t.get? id = t'.get? id) :
    t = t' := by
  obtain ⟨elements⟩ := t
  obtain ⟨elements'⟩ := t'
  congr 1
  exact Array.ext_getElem? fun i => h ⟨i⟩

-- ========================================================= single writes

@[simp] theorem size_insert (tree : ElementTree α) (e : Element α) :
    (tree.insert e).1.size = tree.size + 1 := by
  simp [insert, size]

/-- A new element takes the first free index. -/
theorem get?_insert (tree : ElementTree α) (e : Element α)
    (id : ElementId) :
    (tree.insert e).1.get? id
      = if id.index = tree.size then some e else tree.get? id := by
  unfold insert get? size
  exact Array.getElem?_push

@[simp] theorem size_modify (tree : ElementTree α) (id : ElementId)
    (f : Element α → Element α) : (tree.modify id f).size = tree.size := by
  simp [modify, size]

/-- A change is seen at the element it is made to. -/
theorem get?_modify (tree : ElementTree α) (id i : ElementId)
    (f : Element α → Element α) :
    (tree.modify id f).get? i
      = if i = id then (tree.get? i).map f else tree.get? i := by
  unfold modify get?
  rw [Array.getElem?_modify]
  by_cases h : i = id
  · subst h
    rw [if_pos rfl, if_pos rfl]
  · have hne : id.index ≠ i.index := by
      intro heq
      apply h
      cases id
      cases i
      cases heq
      rfl
    rw [if_neg hne, if_neg h]

/-- A change is not seen at any other element. -/
theorem get?_modify_of_ne {tree : ElementTree α} {id i : ElementId}
    {f : Element α → Element α} (h : i ≠ id) :
    (tree.modify id f).get? i = tree.get? i := by
  rw [get?_modify, if_neg h]

/-- Two changes to one element are one change. -/
theorem modify_modify (tree : ElementTree α) (id : ElementId)
    (f g : Element α → Element α) :
    (tree.modify id f).modify id g = tree.modify id (g ∘ f) := by
  apply ext_get?
  intro i
  rw [get?_modify, get?_modify, get?_modify]
  split
  · exact Option.map_map ..
  · rfl

/-- A change is what it does to the element that is there. -/
theorem modify_congr {tree : ElementTree α} {id : ElementId}
    {f g : Element α → Element α}
    (h : ∀ e, tree.get? id = some e → f e = g e) :
    tree.modify id f = tree.modify id g := by
  apply ext_get?
  intro i
  rw [get?_modify, get?_modify]
  by_cases hi : i = id
  · subst hi
    rw [if_pos rfl, if_pos rfl]
    cases hget : tree.get? i with
    | none => rfl
    | some e => rw [Option.map_some, Option.map_some, h e hget]
  · rw [if_neg hi, if_neg hi]

/-- Changes that commute on every element commute on the tree. -/
theorem modify_comm {f g : Element α → Element α}
    (h : ∀ e, f (g e) = g (f e)) (tree : ElementTree α) (i j : ElementId) :
    (tree.modify i f).modify j g = (tree.modify j g).modify i f := by
  apply ext_get?
  intro k
  rw [get?_modify, get?_modify, get?_modify, get?_modify]
  by_cases hi : k = i
  · by_cases hj : k = j
    · simp only [if_pos hi, if_pos hj, Option.map_map]
      congr 1
      funext e
      exact (h e).symm
    · rw [if_neg hj, if_pos hi, if_pos hi, if_neg hj]
  · by_cases hj : k = j
    · rw [if_pos hj, if_neg hi, if_neg hi, if_pos hj]
    · rw [if_neg hj, if_neg hi, if_neg hi, if_neg hj]

theorem modify_id (tree : ElementTree α) (id : ElementId) :
    tree.modify id (·) = tree := by
  apply ext_get?
  intro i
  rw [get?_modify]
  split
  · exact Option.map_id'
  · rfl

/-- If every element has a partner in a tree of the same size, every
partner has its element. -/
theorem exists_get?_of_partner {t t' : ElementTree α}
    {R : Element α → Element α → Prop} (hsize : t'.size = t.size)
    (h : ∀ {id e}, t.get? id = some e → ∃ e', t'.get? id = some e' ∧ R e e')
    {id : ElementId} {e' : Element α} (hget' : t'.get? id = some e') :
    ∃ e, t.get? id = some e ∧ R e e' := by
  have hlt : id.index < t.size := by
    rw [← hsize]
    exact get?_isSome_iff.1 ⟨e', hget'⟩
  obtain ⟨e, hget⟩ := get?_isSome_iff.2 hlt
  obtain ⟨e'', hget'', hpartner⟩ := h hget
  rw [hget'] at hget''
  cases hget''
  exact ⟨e, hget, hpartner⟩

/-- A change made at several indices, that a second time changes nothing:
it only counts at which ones. -/
theorem get?_foldl_modify {f : Element α → Element α}
    (h : ∀ e, f (f e) = f e) (tree : ElementTree α)
    (ids : List ElementId) (i : ElementId) :
    (ids.foldl (fun tree id => tree.modify id f) tree).get? i
      = if i ∈ ids then (tree.get? i).map f else tree.get? i := by
  induction ids generalizing tree with
  | nil => rw [if_neg List.not_mem_nil]; rfl
  | cons id rest ih =>
      rw [List.foldl_cons, ih, get?_modify]
      by_cases hid : i = id
      · subst hid
        rw [if_pos rfl, if_pos List.mem_cons_self]
        split
        · rw [Option.map_map]
          congr 1
          funext e
          exact h e
        · rfl
      · rw [if_neg hid]
        by_cases hrest : i ∈ rest
        · rw [if_pos hrest, if_pos (List.mem_cons_of_mem _ hrest)]
        · rw [if_neg hrest, if_neg]
          intro hmem
          rcases List.mem_cons.1 hmem with h | h
          · exact hid h
          · exact hrest h

-- ================================================================= links

@[simp] theorem size_appendChild (tree : ElementTree α)
    (parent child : ElementId) :
    (tree.appendChild parent child).size = tree.size := by
  simp [appendChild]

/-- Appending a child writes to parent and child, provided they are two. -/
theorem get?_appendChild (tree : ElementTree α) {parent child : ElementId}
    (hne : parent ≠ child) (i : ElementId) :
    (tree.appendChild parent child).get? i
      = if i = parent then
          (tree.get? i).map fun e => { e with children := e.children ++ [child] }
        else if i = child then
          (tree.get? i).map fun e => { e with parent? := some parent }
        else tree.get? i := by
  unfold appendChild
  rw [get?_modify, get?_modify]
  by_cases hp : i = parent
  · subst hp
    rw [if_neg hne, if_pos rfl, if_pos rfl]
  · rw [if_neg hp, if_neg hp]

@[simp] theorem size_foldl_appendChild (tree : ElementTree α)
    (parent : ElementId) (children : List ElementId) :
    (children.foldl (fun tree child => tree.appendChild parent child)
      tree).size = tree.size := by
  induction children generalizing tree with
  | nil => rfl
  | cons child rest ih => rw [List.foldl_cons, ih, size_appendChild]

/-- Handing over children one by one: they stand behind the parent's own
in the same order, and each of them points to the parent. -/
theorem get?_foldl_appendChild (tree : ElementTree α) {parent : ElementId}
    {children : List ElementId} (hne : parent ∉ children) (i : ElementId) :
    (children.foldl (fun tree child => tree.appendChild parent child)
      tree).get? i
      = if i = parent then
          (tree.get? i).map fun e => { e with children := e.children ++ children }
        else if i ∈ children then
          (tree.get? i).map fun e => { e with parent? := some parent }
        else tree.get? i := by
  induction children generalizing tree with
  | nil =>
      rw [List.foldl_nil]
      by_cases hp : i = parent
      · rw [if_pos hp]
        simp
      · rw [if_neg hp]
        simp
  | cons child rest ih =>
      have hc : parent ≠ child := List.ne_of_not_mem_cons hne
      have hr : parent ∉ rest := List.not_mem_of_not_mem_cons hne
      rw [List.foldl_cons, ih _ hr, get?_appendChild tree hc]
      by_cases hp : i = parent
      · rw [if_pos hp, if_pos hp, if_pos hp, Option.map_map]
        congr 1
        funext e
        simp
      · rw [if_neg hp, if_neg hp, if_neg hp]
        by_cases hi : i = child
        · subst hi
          rw [if_pos rfl, if_pos (List.mem_cons_self), Option.map_map]
          split
          · rfl
          · rfl
        · rw [if_neg hi]
          by_cases hm : i ∈ rest
          · rw [if_pos hm, if_pos (List.mem_cons_of_mem _ hm)]
          · rw [if_neg hm, if_neg]
            rw [List.mem_cons]
            rintro (h | h)
            · exact hi h
            · exact hm h

/-- Linking siblings one by one gives every one of them the same list. -/
private theorem get?_foldl_link (tree : ElementTree α)
    (peers children : List ElementId) (i : ElementId) :
    (children.foldl (fun tree child =>
        tree.modify child ({ · with siblings := peers })) tree).get? i
      = if i ∈ children then
          (tree.get? i).map ({ · with siblings := peers })
        else tree.get? i := by
  induction children generalizing tree with
  | nil => rw [List.foldl_nil, if_neg (List.not_mem_nil)]
  | cons child rest ih =>
      rw [List.foldl_cons, ih, get?_modify]
      by_cases hi : i = child
      · subst hi
        rw [if_pos rfl, if_pos (List.mem_cons_self), Option.map_map]
        split
        · rfl
        · rfl
      · rw [if_neg hi]
        by_cases hm : i ∈ rest
        · rw [if_pos hm, if_pos (List.mem_cons_of_mem _ hm)]
        · rw [if_neg hm, if_neg]
          rw [List.mem_cons]
          rintro (h | h)
          · exact hi h
          · exact hm h

/-- Linking siblings writes the list of them to each child. -/
theorem get?_linkSiblings (tree : ElementTree α) (parent i : ElementId) :
    (tree.linkSiblings parent).get? i
      = if i ∈ tree.childrenOf parent then
          (tree.get? i).map
            ({ · with siblings := tree.childrenOf parent })
        else tree.get? i := by
  unfold linkSiblings childrenOf
  cases tree.get? parent with
  | none =>
      rw [if_neg]
      exact List.not_mem_nil
  | some e => exact get?_foldl_link tree e.children e.children i

private theorem size_foldl_link (tree : ElementTree α)
    (peers children : List ElementId) :
    (children.foldl (fun tree child =>
        tree.modify child ({ · with siblings := peers })) tree).size
      = tree.size := by
  induction children generalizing tree with
  | nil => rfl
  | cons child rest ih => rw [List.foldl_cons, ih, size_modify]

@[simp] theorem size_linkSiblings (tree : ElementTree α)
    (parent : ElementId) : (tree.linkSiblings parent).size = tree.size := by
  unfold linkSiblings
  cases tree.get? parent with
  | none => rfl
  | some e => exact size_foldl_link tree e.children e.children

-- =============================================================== merging

@[simp] theorem size_detach (tree : ElementTree α) (id : ElementId) :
    (tree.detach id).size = tree.size := by
  unfold detach
  cases (tree.get? id).bind (·.parent?) with
  | none => exact size_modify ..
  | some parent => rw [size_modify, size_modify]

@[simp] theorem size_merge (tree : ElementTree α)
    (target child : ElementId) :
    (tree.merge target child).size = tree.size := by
  unfold merge
  simp only
  cases (tree.detach child).get? child with
  | none => exact size_detach ..
  | some absorbed =>
      rw [size_foldl_appendChild, size_modify, size_modify, size_detach]

/-- Detaching writes to the element that leaves and to its parent. -/
theorem get?_detach {tree : ElementTree α} {parent child : ElementId}
    {e : Element α} (hget : tree.get? child = some e)
    (hparent : e.parent? = some parent) (hne : parent ≠ child)
    (i : ElementId) :
    (tree.detach child).get? i
      = if i = child then some { e with parent? := none, detached := true }
        else if i = parent then
          (tree.get? i).map fun p =>
            { p with children := p.children.filter (· ≠ child) }
        else tree.get? i := by
  unfold detach
  rw [hget, Option.bind_some, hparent]
  rw [get?_modify, get?_modify]
  by_cases hc : i = child
  · subst hc
    rw [if_pos rfl, if_pos rfl, if_neg (Ne.symm hne), hget]
    rfl
  · rw [if_neg hc, if_neg hc]

/-- Merging a child into its own parent, one index at a time. -/
theorem get?_merge {tree : ElementTree α} {target child : ElementId}
    {e : Element α} (hget : tree.get? child = some e)
    (hparent : e.parent? = some target) (hne : target ≠ child)
    (htarget : target ∉ e.children) (hchild : child ∉ e.children)
    (i : ElementId) :
    (tree.merge target child).get? i
      = if i = child then some e.husk
        else if i = target then
          (tree.get? i).map fun t =>
            { t.takeOver e with
              children := t.children.filter (· ≠ child) ++ e.children }
        else if i ∈ e.children then
          (tree.get? i).map fun g => { g with parent? := some target }
        else tree.get? i := by
  -- the child is detached first, and then hands its children over
  have hdetached : (tree.detach child).get? child
      = some { e with parent? := none, detached := true } := by
    rw [get?_detach hget hparent hne, if_pos rfl]
  unfold merge
  simp only [hdetached]
  rw [get?_foldl_appendChild _ htarget, get?_modify, get?_modify,
    get?_detach hget hparent hne]
  by_cases hc : i = child
  · subst hc
    rw [if_neg (Ne.symm hne), if_neg hchild, if_neg (Ne.symm hne),
      if_pos rfl, if_pos rfl, if_pos rfl]
    rfl
  · rw [if_neg hc, if_neg hc, if_neg hc]
    by_cases ht : i = target
    · subst ht
      rw [if_pos rfl, if_pos rfl, if_pos rfl, if_pos rfl]
      cases tree.get? i with
      | none => rfl
      | some t => rfl
    · rw [if_neg ht, if_neg ht, if_neg ht, if_neg ht]

end ElementTree

end LayerPage
