/-
What planting a forest leaves in the tree of elements: exactly the
elements that the outline of the forest names, each with the links the
outline gives it, and a husk for every merged layer.

# The invariant

`Grown` reads the links off the outline: an element has the roots of the
outline below it as its children, they point back to it, and they know
each other as siblings. It says nothing about the siblings of the roots
when no list of peers is given, because that is the state in the middle
of a folder: the children added so far, and those handed over by a merge,
are linked only when the folder is complete.

# The induction

`grow_effect` is one induction over the forest. Its step adds a child
with all that is below it (the hypothesis for the forest below), attaches
or merges it, and goes on with the rest (the hypothesis for the rest).
What is written in between lies outside the outlines concerned, or
changes their roots alone: `Grown.relocate` is the lemma for the latter,
and serves both linking and merging.
-/
import LayerPage.Proofs.Build.Outline
import LayerPage.Proofs.Element.Arena
import LayerPage.Proofs.Metadata

namespace LayerPage

variable {α : Type} [Layer α]

namespace Construction

-- ============================================================ own content

/-- The element of a layer alone, its entries applied. -/
def own (registry : MetadataRegistry α) (layer : α) : Element α :=
  (Metadata.apply registry
    (.create (readName layer).1.tag (readName layer).1.identifier layer)
    (readName layer).1.entries).1

/-- An element after layers were merged into it, one after another. -/
def absorbAll (registry : MetadataRegistry α) (absorbed : List α)
    (e : Element α) : Element α :=
  absorbed.foldl (fun e layer => e.takeOver (own registry layer)) e

/-- The element of a layer with everything merged into it, without its
links. -/
def elementOf (registry : MetadataRegistry α) (o : Origin α) : Element α :=
  absorbAll registry o.absorbed (own registry o.layer)

/-- A new element has the tag of its layer's name, no links, and is
attached. -/
theorem own_links {registry : MetadataRegistry α}
    (hreg : Metadata.Decorates registry) (layer : α) :
    (own registry layer).tag = (readName layer).1.tag
      ∧ (own registry layer).layer = layer
      ∧ (own registry layer).parent? = none
      ∧ (own registry layer).children = []
      ∧ (own registry layer).siblings = []
      ∧ (own registry layer).detached = false :=
  Element.links_of_decorated_create (Metadata.decorated_apply hreg _ _)

/-- What is absorbed changes neither tag nor links. -/
theorem absorbAll_links (registry : MetadataRegistry α)
    (absorbed : List α) (e : Element α) :
    (absorbAll registry absorbed e).tag = e.tag
      ∧ (absorbAll registry absorbed e).parent? = e.parent?
      ∧ (absorbAll registry absorbed e).children = e.children
      ∧ (absorbAll registry absorbed e).siblings = e.siblings
      ∧ (absorbAll registry absorbed e).detached = e.detached := by
  induction absorbed generalizing e with
  | nil => exact ⟨rfl, rfl, rfl, rfl, rfl⟩
  | cons layer rest ih => exact ih (e.takeOver (own registry layer))

/-- The layer behind an element is one that it was made from. -/
theorem layer_absorbAll_mem {registry : MetadataRegistry α}
    (hreg : Metadata.Decorates registry) (absorbed : List α)
    (e : Element α) :
    (absorbAll registry absorbed e).layer ∈ e.layer :: absorbed := by
  induction absorbed generalizing e with
  | nil => exact List.mem_singleton_self _
  | cons layer rest ih =>
      have hlayer : (absorbAll registry (layer :: rest) e).layer
          ∈ (own registry layer).layer :: rest :=
        ih (e.takeOver (own registry layer))
      rw [(own_links hreg layer).2.1] at hlayer
      exact List.mem_cons_of_mem _ hlayer

theorem absorbAll_append (registry : MetadataRegistry α)
    (first later : List α) (e : Element α) :
    absorbAll registry (first ++ later) e
      = absorbAll registry later (absorbAll registry first e) :=
  List.foldl_append

/-- What is absorbed does not look at children, so these can be set before
or after it. -/
theorem absorbAll_withChildren (registry : MetadataRegistry α)
    (absorbed : List α) (e : Element α) (children : List ElementId) :
    absorbAll registry absorbed { e with children }
      = { absorbAll registry absorbed e with children } := by
  induction absorbed generalizing e with
  | nil => rfl
  | cons layer rest ih => exact ih (e.takeOver (own registry layer))

-- ============================================================== the links

/-- Whether the elements of an outline stand in a tree the way the outline
has them: with the given parent and, if given, the given peers at the
roots, and linked to each other below. -/
def Grown (registry : MetadataRegistry α) (tree : ElementTree α)
    (parent? : Option ElementId) (peers? : Option (List ElementId)) :
    Forest (Origin α) → Prop
  | .nil => True
  | .cons o below rest =>
      (∃ siblings, tree.get? o.id
          = some { elementOf registry o with
              parent?, children := below.rootIds, siblings }
        ∧ ∀ peers, peers? = some peers → siblings = peers)
      ∧ Grown registry tree (some o.id) (some below.rootIds) below
      ∧ Grown registry tree parent? peers? rest

theorem grown_append {registry : MetadataRegistry α} {tree : ElementTree α}
    {parent? : Option ElementId} {peers? : Option (List ElementId)}
    {forest other : Forest (Origin α)} :
    Grown registry tree parent? peers? (forest ++ other)
      ↔ Grown registry tree parent? peers? forest
        ∧ Grown registry tree parent? peers? other := by
  induction forest with
  | nil =>
      rw [Forest.nil_append]
      exact ⟨fun h => ⟨trivial, h⟩, fun h => h.2⟩
  | cons o below rest _ ihRest =>
      rw [Forest.cons_append]
      simp only [Grown, ihRest, and_assoc]

/-- Only the elements of the outline matter. -/
theorem Grown.congr {registry : MetadataRegistry α} {t t' : ElementTree α}
    {parent? : Option ElementId} {peers? : Option (List ElementId)}
    {forest : Forest (Origin α)}
    (heq : ∀ id ∈ forest.ids, t'.get? id = t.get? id)
    (h : Grown registry t parent? peers? forest) :
    Grown registry t' parent? peers? forest := by
  induction forest generalizing parent? peers? with
  | nil => trivial
  | cons o below rest ihBelow ihRest =>
      obtain ⟨⟨siblings, hget, hpeers⟩, hbelow, hrest⟩ := h
      rw [Forest.ids_cons] at heq
      refine ⟨⟨siblings, ?_, hpeers⟩, ihBelow ?_ hbelow, ihRest ?_ hrest⟩
      · rw [heq _ List.mem_cons_self, hget]
      · intro id hid
        exact heq id (List.mem_cons_of_mem _ (List.mem_append_left _ hid))
      · intro id hid
        exact heq id (List.mem_cons_of_mem _ (List.mem_append_right _ hid))

/-- Changing parent and siblings of the roots alone. -/
theorem Grown.relocate {registry : MetadataRegistry α}
    {t t' : ElementTree α} {p p' : Option ElementId}
    {q q' : Option (List ElementId)} {f : Element α → Element α}
    {forest : Forest (Origin α)}
    (hf : ∀ e : Element α, e.parent? = p → ∃ siblings,
      f e = { e with parent? := p', siblings }
        ∧ ∀ peers, q' = some peers → siblings = peers)
    (hroots : ∀ o ∈ forest.roots, t'.get? o.id = (t.get? o.id).map f)
    (hinner : ∀ o ∈ forest.inner, t'.get? o.id = t.get? o.id)
    (h : Grown registry t p q forest) : Grown registry t' p' q' forest := by
  induction forest with
  | nil => trivial
  | cons o below rest _ ihRest =>
      obtain ⟨⟨siblings, hget, -⟩, hbelow, hrest⟩ := h
      obtain ⟨siblings', hfe, hpeers⟩ := hf
        { elementOf registry o with
          parent? := p, children := below.rootIds, siblings } rfl
      refine ⟨⟨siblings', ?_, hpeers⟩, hbelow.congr ?_, ihRest ?_ ?_ hrest⟩
      · rw [hroots o List.mem_cons_self, hget, Option.map_some, hfe]
      · intro id hid
        obtain ⟨o', ho', rfl⟩ := List.mem_map.1 hid
        exact hinner o' (List.mem_append_left _ ho')
      · intro o' ho'
        exact hroots o' (List.mem_cons_of_mem _ ho')
      · intro o' ho'
        exact hinner o' (List.mem_append_right _ ho')

/-- Every origin of an outline has its element. -/
theorem Grown.element {registry : MetadataRegistry α}
    {tree : ElementTree α} {parent? : Option ElementId}
    {peers? : Option (List ElementId)} {forest : Forest (Origin α)}
    (h : Grown registry tree parent? peers? forest) {o : Origin α}
    (ho : o ∈ forest.labels) :
    ∃ p? children siblings, tree.get? o.id
      = some { elementOf registry o with
          parent? := p?, children, siblings } := by
  induction forest generalizing parent? peers? with
  | nil => cases ho
  | cons o' below rest ihBelow ihRest =>
      obtain ⟨⟨siblings, hget, -⟩, hbelow, hrest⟩ := h
      rcases List.mem_cons.1 ho with rfl | ho
      · exact ⟨_, _, _, hget⟩
      · rcases List.mem_append.1 ho with ho | ho
        · exact ihBelow hbelow ho
        · exact ihRest hrest ho

/-- All that has grown is attached. -/
theorem Grown.attached {registry : MetadataRegistry α}
    (hreg : Metadata.Decorates registry) {tree : ElementTree α}
    {parent? : Option ElementId} {peers? : Option (List ElementId)}
    {forest : Forest (Origin α)}
    (h : Grown registry tree parent? peers? forest) {id : ElementId}
    (hid : id ∈ forest.ids) :
    ∃ e, tree.get? id = some e ∧ e.detached = false := by
  obtain ⟨o, ho, rfl⟩ := List.mem_map.1 hid
  obtain ⟨_, _, _, hget⟩ := h.element ho
  refine ⟨_, hget, ?_⟩
  show (elementOf registry o).detached = false
  rw [elementOf, (absorbAll_links ..).2.2.2.2]
  exact (own_links hreg o.layer).2.2.2.2.2

/-- No husk is a root of an outline. -/
theorem Grown.not_mem_of_husk {registry : MetadataRegistry α}
    (hreg : Metadata.Decorates registry) {tree : ElementTree α}
    {parent? : Option ElementId} {peers? : Option (List ElementId)}
    {forest : Forest (Origin α)}
    (h : Grown registry tree parent? peers? forest) {id : ElementId}
    {e : Element α} (hhusk : tree.get? id = some e.husk) :
    id ∉ forest.rootIds := by
  intro hroot
  obtain ⟨e', hget', hattached⟩ :=
    h.attached hreg (Forest.mem_ids_of_mem_rootIds hroot)
  rw [hhusk] at hget'
  cases hget'
  cases hattached

-- ============================================================= one layer

/-- The element of a layer is inserted behind all others. -/
theorem addOwn_tree (registry : MetadataRegistry α) (layer : α)
    (c : Construction α) :
    (addOwn registry layer c).1.tree
      = (c.tree.insert (own registry layer)).1 := rfl

/-- The element of a layer is listed last in the stylesheet. -/
theorem addOwn_stylesheet (registry : MetadataRegistry α) (layer : α)
    (c : Construction α) :
    (addOwn registry layer c).1.stylesheet
      = c.stylesheet ++ [⟨c.tree.size⟩] := rfl

/-- What growing a forest below an element leaves behind. -/
structure Grew (registry : MetadataRegistry α) (folder : α)
    (id : ElementId) (forest : Forest α) (e : Element α)
    (c c' : Construction α) : Prop where
  size : c'.tree.size = c.tree.size + forest.size
  /-- Each layer enters the style sheet when its element is made. -/
  stylesheet : c'.stylesheet
    = c.stylesheet ++ (List.range' c.tree.size forest.size).map ElementId.mk
  /-- The element itself absorbs what is merged into it, and the roots of
  the outline stand behind the children it has. -/
  target : c'.tree.get? id
    = some { absorbAll registry (absorbedBy folder forest) e with
        children := e.children
          ++ (outline folder c.tree.size forest).rootIds }
  /-- No other element that was there is touched. -/
  frame : ∀ i, i.index < c.tree.size → i ≠ id →
    c'.tree.get? i = c.tree.get? i
  grown : Grown registry c'.tree (some id) none
    (outline folder c.tree.size forest)
  husked : ∀ h ∈ husks folder c.tree.size forest,
    c'.tree.get? h.1 = some (own registry h.2).husk

/-- What planting a layer leaves behind. -/
structure Planted (registry : MetadataRegistry α) (layer : α)
    (below : Forest α) (c c' : Construction α) : Prop where
  size : c'.tree.size = c.tree.size + (below.size + 1)
  stylesheet : c'.stylesheet = c.stylesheet
    ++ (List.range' c.tree.size (below.size + 1)).map ElementId.mk
  /-- The layer's element has no parent and no siblings yet. -/
  target : c'.tree.get? ⟨c.tree.size⟩
    = some { absorbAll registry (absorbedBy layer below)
          (own registry layer) with
        children := (outline layer (c.tree.size + 1) below).rootIds }
  frame : ∀ i, i.index < c.tree.size → c'.tree.get? i = c.tree.get? i
  grown : Grown registry c'.tree (some ⟨c.tree.size⟩)
    (some (outline layer (c.tree.size + 1) below).rootIds)
    (outline layer (c.tree.size + 1) below)
  husked : ∀ h ∈ husks layer (c.tree.size + 1) below,
    c'.tree.get? h.1 = some (own registry h.2).husk

/-- Linking completes a layer: the roots below it learn their peers. -/
theorem planted_of_grew {registry : MetadataRegistry α}
    (hreg : Metadata.Decorates registry) {layer : α} {below : Forest α}
    {c c' : Construction α}
    (h : Grew registry layer ⟨c.tree.size⟩ below (own registry layer)
      (addOwn registry layer c).1 c') :
    Planted registry layer below c (link ⟨c.tree.size⟩ c') := by
  have hsize : (addOwn registry layer c).1.tree.size = c.tree.size + 1 := by
    rw [addOwn_tree, ElementTree.size_insert]
  obtain ⟨gsize, gstylesheet, gtarget, gframe, ggrown, ghusked⟩ := h
  rw [hsize] at gsize gstylesheet gtarget gframe ggrown ghusked
  rw [(own_links hreg layer).2.2.2.1, List.nil_append] at gtarget
  have hchildren : c'.tree.childrenOf ⟨c.tree.size⟩
      = (outline layer (c.tree.size + 1) below).rootIds :=
    ElementTree.childrenOf_of_get? gtarget
  have hlink : ∀ i, (link ⟨c.tree.size⟩ c').tree.get? i
      = if i ∈ (outline layer (c.tree.size + 1) below).rootIds then
          (c'.tree.get? i).map ({ · with
            siblings := (outline layer (c.tree.size + 1) below).rootIds })
        else c'.tree.get? i := by
    intro i
    rw [← hchildren]
    exact ElementTree.get?_linkSiblings c'.tree ⟨c.tree.size⟩ i
  have hbelow : ∀ i,
      i ∈ (outline layer (c.tree.size + 1) below).rootIds →
      c.tree.size < i.index := fun i hi =>
    (outline_bounds (Forest.mem_ids_of_mem_rootIds hi)).1
  refine ⟨?_, ?_, ?_, ?_, ?_, ?_⟩
  · show (c'.tree.linkSiblings _).size = _
    rw [ElementTree.size_linkSiblings, gsize]
    omega
  · show c'.stylesheet = _
    rw [gstylesheet, addOwn_stylesheet, List.range'_succ, List.map_cons,
      List.append_assoc]
    rfl
  · -- the layer's own element is older than all that is below it
    rw [hlink, if_neg, gtarget]
    intro hmem
    have := hbelow _ hmem
    simp only at this
    omega
  · -- what was there before is no root of the forest
    intro i hi
    rw [hlink, if_neg, gframe i (by omega), addOwn_tree,
      ElementTree.get?_insert, if_neg (by omega)]
    · rintro rfl
      exact Nat.lt_irrefl _ hi
    · intro hmem
      have := hbelow i hmem
      omega
  · -- only the roots of the forest are linked, so those below keep theirs
    refine ggrown.relocate (f := ({ · with
      siblings := (outline layer (c.tree.size + 1) below).rootIds }))
      ?_ ?_ ?_
    · intro e he
      refine ⟨_, ?_, fun peers hpeers => Option.some.inj hpeers⟩
      rw [← he]
    · intro o ho
      have hroot : o.id ∈ (outline layer (c.tree.size + 1) below).rootIds :=
        List.mem_map_of_mem ho
      rw [hlink, if_pos hroot]
    · intro o ho
      rw [hlink, if_neg (Forest.not_mem_rootIds_of_inner
        (outline_ascending ..) ho)]
  · -- a husk is in no list of peers
    intro x hx
    have hhusk := ghusked x hx
    rw [hlink, if_neg (ggrown.not_mem_of_husk hreg hhusk), hhusk]

-- ============================================================= one child

/-- The outline of a child alone: its own element, or what is below it if
it is merged. -/
def outlineOf (folder child : α) (n : Nat) (below : Forest α) :
    Forest (Origin α) :=
  if mergePair folder child = true then outline child (n + 1) below
  else .cons ⟨⟨n⟩, child, absorbedBy child below⟩
    (outline child (n + 1) below) .nil

/-- The husks a child brings with it, its own first if it is merged. -/
def husksOf (folder child : α) (n : Nat) (below : Forest α) :
    List (ElementId × α) :=
  (if mergePair folder child = true then [(⟨n⟩, child)] else [])
    ++ husks child (n + 1) below

theorem outline_cons (folder child : α) (n : Nat) (below rest : Forest α) :
    outline folder n (.cons child below rest)
      = outlineOf folder child n below
        ++ outline folder (n + 1 + below.size) rest := rfl

theorem husks_cons (folder child : α) (n : Nat) (below rest : Forest α) :
    husks folder n (.cons child below rest)
      = husksOf folder child n below
        ++ husks folder (n + 1 + below.size) rest := by
  rw [husks, husksOf, List.append_assoc]

/-- What attaching or merging a planted child leaves behind. -/
structure Adopted (registry : MetadataRegistry α) (folder child : α)
    (id : ElementId) (below : Forest α) (e : Element α)
    (c c' : Construction α) : Prop where
  size : c'.tree.size = c.tree.size + (below.size + 1)
  stylesheet : c'.stylesheet = c.stylesheet
    ++ (List.range' c.tree.size (below.size + 1)).map ElementId.mk
  target : c'.tree.get? id
    = some { absorbAll registry
          (if mergePair folder child = true then [child] else []) e with
        children := e.children
          ++ (outlineOf folder child c.tree.size below).rootIds }
  frame : ∀ i, i.index < c.tree.size → i ≠ id →
    c'.tree.get? i = c.tree.get? i
  grown : Grown registry c'.tree (some id) none
    (outlineOf folder child c.tree.size below)
  husked : ∀ h ∈ husksOf folder child c.tree.size below,
    c'.tree.get? h.1 = some (own registry h.2).husk

/-- What comes after a number is neither that number nor before it. -/
private theorem apart_of_lt {n : Nat} {id i : ElementId}
    (hid : id.index < n) (hi : n < i.index) : i ≠ ⟨n⟩ ∧ i ≠ id := by
  constructor
  · rintro rfl
    exact Nat.lt_irrefl _ hi
  · rintro rfl
    omega

section

variable {registry : MetadataRegistry α} {folder child : α}
  {id : ElementId} {below : Forest α} {e : Element α}
  {c c' : Construction α}

/-- Adopting a child that is no merge pair with its parent, one index at
a time. -/
theorem get?_adopt_of_attached (hpair : mergePair folder child = false)
    (hid : id.index < c.tree.size) (c' : Construction α) (i : ElementId) :
    (adopt folder child id ⟨c.tree.size⟩ c').tree.get? i
      = if i = id then (c'.tree.get? i).map fun e =>
          { e with children := e.children ++ [⟨c.tree.size⟩] }
        else if i = ⟨c.tree.size⟩ then (c'.tree.get? i).map fun e =>
          { e with parent? := some id }
        else c'.tree.get? i := by
  have hne : id ≠ ⟨c.tree.size⟩ := by
    rintro rfl
    exact Nat.lt_irrefl _ hid
  unfold adopt
  simp only [hpair, Bool.false_eq_true, if_false]
  exact ElementTree.get?_appendChild c'.tree hne i

/-- A child that is no merge pair with its parent is attached. -/
theorem adopted_of_attached (hpair : mergePair folder child = false)
    (hget : c.tree.get? id = some e) (hid : id.index < c.tree.size)
    (h : Planted registry child below c c') :
    Adopted registry folder child id below e c
      (adopt folder child id ⟨c.tree.size⟩ c') := by
  have htree := get?_adopt_of_attached hpair hid c'
  have hbelow : ∀ i, c.tree.size < i.index →
      (adopt folder child id ⟨c.tree.size⟩ c').tree.get? i
        = c'.tree.get? i := by
    intro i hi
    obtain ⟨hn, hi'⟩ := apart_of_lt hid hi
    rw [htree, if_neg hi', if_neg hn]
  have houtline : outlineOf folder child c.tree.size below
      = .cons ⟨⟨c.tree.size⟩, child, absorbedBy child below⟩
          (outline child (c.tree.size + 1) below) .nil := by
    unfold outlineOf
    rw [if_neg (by simp [hpair])]
  have hnew : (⟨c.tree.size⟩ : ElementId) ≠ id := by
    rintro rfl
    exact Nat.lt_irrefl _ hid
  refine ⟨?_, h.stylesheet, ?_, ?_, ?_, ?_⟩
  · unfold adopt
    simp only [hpair, Bool.false_eq_true, if_false]
    rw [ElementTree.size_appendChild, h.size]
  · rw [htree, if_pos rfl, h.frame id hid, hget, houtline,
      if_neg (by simp [hpair])]
    rfl
  · intro i hi hi'
    rw [htree, if_neg hi', if_neg, h.frame i hi]
    rintro rfl
    exact Nat.lt_irrefl _ hi
  · rw [houtline]
    refine ⟨⟨(own registry child).siblings, ?_, ?_⟩, ?_, trivial⟩
    · rw [htree, if_neg hnew, if_pos rfl, h.target]
      simp only [Option.map_some, elementOf]
      rw [← (absorbAll_links registry (absorbedBy child below)
        (own registry child)).2.2.2.1]
    · -- the child learns its peers only when the folder is complete
      intro peers hpeers
      cases hpeers
    · refine h.grown.congr fun i hi => hbelow i ?_
      exact (outline_bounds hi).1
  · intro x hx
    unfold husksOf at hx
    rw [if_neg (by simp [hpair]), List.nil_append] at hx
    rw [hbelow x.1 (husks_bounds hx).1]
    exact h.husked x hx

/-- Taking out what was put behind a list gives the list back. -/
private theorem filter_ne_append_self {l : List ElementId} {id : ElementId}
    (h : id ∉ l) : (l ++ [id]).filter (· ≠ id) = l := by
  have hl : l.filter (· ≠ id) = l := by
    rw [List.filter_eq_self]
    intro k hk
    rw [decide_eq_true_eq]
    rintro rfl
    exact h hk
  rw [List.filter_append, hl]
  simp

/-- Adopting a child that is a merge pair with its parent, one index at a
time: the child's children are handed over, and it is left a husk. -/
theorem get?_adopt_of_merged (hpair : mergePair folder child = true)
    (hget : c.tree.get? id = some e) (hid : id.index < c.tree.size)
    (hfresh : ⟨c.tree.size⟩ ∉ e.children)
    (h : Planted registry child below c c') (i : ElementId) :
    (adopt folder child id ⟨c.tree.size⟩ c').tree.get? i
      = if i = ⟨c.tree.size⟩ then some (own registry child).husk
        else if i = id then
          some { e.takeOver (own registry child) with
            children := e.children
              ++ (outline child (c.tree.size + 1) below).rootIds }
        else if i ∈ (outline child (c.tree.size + 1) below).rootIds then
          (c'.tree.get? i).map fun g => { g with parent? := some id }
        else c'.tree.get? i := by
  have hne : id ≠ ⟨c.tree.size⟩ := by
    rintro rfl
    exact Nat.lt_irrefl _ hid
  have hroots : ∀ k ∈ (outline child (c.tree.size + 1) below).rootIds,
      k ≠ ⟨c.tree.size⟩ ∧ k ≠ id := fun k hk =>
    apart_of_lt hid (outline_bounds (Forest.mem_ids_of_mem_rootIds hk)).1
  -- the child, attached to its parent just before it is merged
  have happend := ElementTree.get?_appendChild c'.tree hne
  have hattached : (c'.tree.appendChild id ⟨c.tree.size⟩).get? ⟨c.tree.size⟩
      = some { own registry child with
          children := (outline child (c.tree.size + 1) below).rootIds
          parent? := some id } := by
    rw [happend, if_neg (Ne.symm hne), if_pos rfl, h.target,
      absorbedBy_of_mergePair hpair]
    rfl
  have hmerge := ElementTree.get?_merge hattached rfl hne
    (fun hmem => (hroots id hmem).2 rfl)
    (fun hmem => (hroots _ hmem).1 rfl) i
  unfold adopt
  simp only [hpair, if_true]
  refine hmerge.trans ?_
  rw [happend]
  -- the child, the folder, the roots that are handed over, and the rest
  by_cases hnew : i = ⟨c.tree.size⟩
  · rw [if_pos hnew, if_pos hnew]
    rfl
  · by_cases hi : i = id
    · simp only [if_neg hnew, if_pos hi]
      rw [hi, h.frame id hid, hget, Option.map_some, Option.map_some,
        filter_ne_append_self hfresh]
      rfl
    · simp only [if_neg hnew, if_neg hi]

/-- A child that is a merge pair with its parent is merged. It has
absorbed nothing itself, and what was below it is handed over. -/
theorem adopted_of_merged (hreg : Metadata.Decorates registry)
    (hpair : mergePair folder child = true)
    (hget : c.tree.get? id = some e) (hid : id.index < c.tree.size)
    (hchildren : ∀ k ∈ e.children, k.index < c.tree.size)
    (h : Planted registry child below c c') :
    Adopted registry folder child id below e c
      (adopt folder child id ⟨c.tree.size⟩ c') := by
  have htree := get?_adopt_of_merged hpair hget hid
    (fun hmem => Nat.lt_irrefl _ (hchildren _ hmem)) h
  have hroots : ∀ i ∈ (outline child (c.tree.size + 1) below).rootIds,
      c.tree.size < i.index := fun i hi =>
    (outline_bounds (Forest.mem_ids_of_mem_rootIds hi)).1
  have houtline : outlineOf folder child c.tree.size below
      = outline child (c.tree.size + 1) below := by
    unfold outlineOf
    rw [if_pos hpair]
  refine ⟨?_, h.stylesheet, ?_, ?_, ?_, ?_⟩
  · unfold adopt
    simp only [hpair, if_true]
    rw [ElementTree.size_merge, ElementTree.size_appendChild, h.size]
  · have hne : id ≠ ⟨c.tree.size⟩ := by
      rintro rfl
      exact Nat.lt_irrefl _ hid
    rw [htree, if_neg hne, if_pos rfl, houtline, if_pos hpair]
    rfl
  · intro i hi hi'
    have hne : i ≠ ⟨c.tree.size⟩ := by
      rintro rfl
      exact Nat.lt_irrefl _ hi
    rw [htree, if_neg hne, if_neg hi', if_neg, h.frame i hi]
    intro hmem
    have := hroots i hmem
    omega
  · rw [houtline]
    refine h.grown.relocate (f := ({ · with parent? := some id })) ?_ ?_ ?_
    · -- what is handed over has no peers until the folder is complete
      intro e' _
      refine ⟨e'.siblings, rfl, ?_⟩
      intro peers hpeers
      cases hpeers
    · intro o ho
      have hmem : o.id ∈ (outline child (c.tree.size + 1) below).rootIds :=
        List.mem_map_of_mem ho
      obtain ⟨hn, hi⟩ := apart_of_lt hid (hroots _ hmem)
      rw [htree, if_neg hn, if_neg hi, if_pos hmem]
    · intro o ho
      obtain ⟨hn, hi⟩ := apart_of_lt hid (outline_bounds
        (List.mem_map_of_mem (f := (·.id))
          (Forest.mem_labels_of_mem_inner ho))).1
      rw [htree, if_neg hn, if_neg hi, if_neg]
      exact Forest.not_mem_rootIds_of_inner (outline_ascending ..) ho
  · -- the child itself is the first husk, and those below it stay husks
    intro x hx
    unfold husksOf at hx
    rw [if_pos hpair] at hx
    rcases List.mem_append.1 hx with hx | hx
    · rw [List.mem_singleton] at hx
      subst hx
      rw [htree, if_pos rfl]
    · obtain ⟨hn, hi⟩ := apart_of_lt hid (husks_bounds hx).1
      have hhusk := h.husked x hx
      rw [htree, if_neg hn, if_neg hi,
        if_neg (h.grown.not_mem_of_husk hreg hhusk), hhusk]

end

-- ============================================================= all layers

/-- A child that was planted is adopted: it is linked below the folder, or
it leaves its children there and a husk behind. -/
theorem adopted {registry : MetadataRegistry α}
    (hreg : Metadata.Decorates registry)
    {folder child : α} {id : ElementId} {below : Forest α} {e : Element α}
    {c c' : Construction α} (hget : c.tree.get? id = some e)
    (hid : id.index < c.tree.size)
    (hchildren : ∀ k ∈ e.children, k.index < c.tree.size)
    (h : Planted registry child below c c') :
    Adopted registry folder child id below e c
      (adopt folder child id ⟨c.tree.size⟩ c') := by
  cases hpair : mergePair folder child with
  | true => exact adopted_of_merged hreg hpair hget hid hchildren h
  | false => exact adopted_of_attached hpair hget hid h

/-- What grows from a layer has numbers of its own, from the first
one on. -/
theorem outlineOf_bounds {folder child : α} {n : Nat}
    {below : Forest α} {id : ElementId}
    (h : id ∈ (outlineOf folder child n below).ids) :
    n ≤ id.index ∧ id.index < n + (below.size + 1) := by
  have hcons : id ∈ (outline folder n (.cons child below .nil)).ids := by
    rw [outline_cons, Forest.ids_append]
    exact List.mem_append_left _ h
  exact outline_bounds hcons

/-- The husks of a layer have numbers of its own, too. -/
theorem husksOf_bounds {folder child : α} {n : Nat} {below : Forest α}
    {h : ElementId × α} (hmem : h ∈ husksOf folder child n below) :
    n ≤ h.1.index ∧ h.1.index < n + (below.size + 1) := by
  have hcons : h ∈ husks folder n (.cons child below .nil) := by
    rw [husks_cons]
    exact List.mem_append_left _ hmem
  exact husks_bounds hcons

/-- Growing a forest below an element leaves behind what its outline
says, provided the element is there and has no children from the future. -/
theorem grow_effect {registry : MetadataRegistry α}
    (hreg : Metadata.Decorates registry) (folder : α) (id : ElementId)
    (forest : Forest α) (c : Construction α) (e : Element α)
    (hget : c.tree.get? id = some e)
    (hchildren : ∀ k ∈ e.children, k.index < c.tree.size) :
    Grew registry folder id forest e c (grow registry folder id forest c) := by
  induction forest generalizing folder id c e with
  | nil =>
      refine ⟨rfl, ?_, ?_, fun _ _ _ => rfl, trivial, ?_⟩
      · simp [grow, Forest.size]
      · rw [grow, hget]
        simp [absorbedBy, absorbAll, Forest.roots, outline, Forest.rootIds]
      · intro h hh
        cases hh
  | cons child below rest ihBelow ihRest =>
      have hid : id.index < c.tree.size :=
        ElementTree.get?_isSome_iff.1 ⟨e, hget⟩
      -- the child with all that is below it
      have hplanted : Planted registry child below c
          (plant registry child below c).1 := by
        refine planted_of_grew hreg (ihBelow child ⟨c.tree.size⟩ _ _ ?_ ?_)
        · rw [addOwn_tree, ElementTree.get?_insert, if_pos rfl]
        · rw [(own_links hreg child).2.2.2.1]
          intro k hk
          cases hk
      have hadopted : Adopted registry folder child id below e c
          (adopt folder child id ⟨c.tree.size⟩
            (plant registry child below c).1) :=
        adopted hreg hget hid hchildren hplanted
      rw [grow_cons]
      have hplantId : (plant registry child below c).2 = ⟨c.tree.size⟩ := rfl
      rw [hplantId]
      generalize (adopt folder child id ⟨c.tree.size⟩
        (plant registry child below c).1) = c₁ at hadopted
      -- the layers after it
      have hrest := ihRest folder id c₁ _ hadopted.target ?_
      · have hsize := hadopted.size
        have hassoc : c.tree.size + (below.size + 1)
            = c.tree.size + 1 + below.size := by omega
        obtain ⟨rsize, rstylesheet, rtarget, rframe, rgrown, rhusked⟩ := hrest
        rw [hsize] at rsize rstylesheet rtarget rframe rgrown rhusked
        rw [hassoc] at rtarget rgrown rhusked
        have hkeep : ∀ i : ElementId, c.tree.size ≤ i.index →
            i.index < c.tree.size + (below.size + 1) →
            (grow registry folder id rest c₁).tree.get? i
              = c₁.tree.get? i := by
          intro i hlow hhigh
          refine rframe i hhigh ?_
          rintro rfl
          omega
        refine ⟨?_, ?_, ?_, ?_, ?_, ?_⟩
        · rw [rsize, Forest.size]
          omega
        · rw [rstylesheet, hadopted.stylesheet, List.append_assoc,
            ← List.map_append, List.range'_append_1, Forest.size]
          congr 3
          omega
        · rw [rtarget, outline_cons, Forest.rootIds_append, absorbedBy_cons,
            absorbAll_append, absorbAll_withChildren, ← List.append_assoc]
        · intro i hi hi'
          rw [rframe i (by omega) hi', hadopted.frame i hi hi']
        · rw [outline_cons, grown_append]
          refine ⟨hadopted.grown.congr ?_, rgrown⟩
          intro i hi
          obtain ⟨hlow, hhigh⟩ := outlineOf_bounds hi
          exact hkeep i hlow hhigh
        · intro h hh
          rw [husks_cons] at hh
          rcases List.mem_append.1 hh with hh | hh
          · obtain ⟨hlow, hhigh⟩ := husksOf_bounds hh
            rw [hkeep h.1 hlow hhigh, hadopted.husked h hh]
          · exact rhusked h hh
      · -- what the folder has for children by now was created before the
        -- rest
        intro k hk
        rw [hadopted.size]
        rcases List.mem_append.1 hk with hk | hk
        · have := hchildren k hk
          omega
        · exact (outlineOf_bounds
            (Forest.mem_ids_of_mem_rootIds hk)).2

/-- What planting a layer does: its element is added behind all others, and
what is below the layer grows there. -/
theorem plant_effect {registry : MetadataRegistry α}
    (hreg : Metadata.Decorates registry) (layer : α) (below : Forest α)
    (c : Construction α) :
    Planted registry layer below c (plant registry layer below c).1 := by
  refine planted_of_grew hreg
    (grow_effect hreg layer ⟨c.tree.size⟩ below _ _ ?_ ?_)
  · rw [addOwn_tree, ElementTree.get?_insert, if_pos rfl]
  · rw [(own_links hreg layer).2.2.2.1]
    intro k hk
    cases hk

end Construction

end LayerPage
