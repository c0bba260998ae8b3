/-
Every tree that is built is well-formed, and its style sheet is the list
of its elements in the order of creation.

The layers are any that building accepts, at any depth and with any
number of merges per folder; the handlers are any that only set
attributes and style properties. Everything is read off `Grown`: the
outline has the links, its numbers ascend, and it leaves out exactly the
husks.
-/
import LayerPage.Manifest.Layer
import LayerPage.Proofs.Build.Growth
import LayerPage.Proofs.Element.WellFormed

namespace LayerPage

variable {α : Type} [Layer α]

open ElementTree (Visit)

namespace Construction

-- ================================================ from the outline down

/-- The visit of an outline's roots passes through all of it. -/
theorem Grown.visit {registry : MetadataRegistry α} {tree : ElementTree α}
    {parent? : Option ElementId} {peers? : Option (List ElementId)}
    {forest : Forest (Origin α)}
    (h : Grown registry tree parent? peers? forest)
    {pending visited : List ElementId} (hrest : tree.Visit pending visited) :
    tree.Visit (forest.rootIds ++ pending) (forest.ids ++ visited) := by
  induction forest generalizing parent? peers? pending visited with
  | nil => exact hrest
  | cons o below rest ihBelow ihRest =>
      obtain ⟨⟨siblings, hget, -⟩, hbelow, hafter⟩ := h
      rw [Forest.ids_cons, List.cons_append, List.append_assoc]
      exact .step hget (ihBelow hbelow (ihRest hafter hrest))

/-- Going down as many levels as an outline has elements reaches all of
it. -/
theorem Grown.descendants {registry : MetadataRegistry α}
    {tree : ElementTree α} {parent? : Option ElementId}
    {peers? : Option (List ElementId)} {forest : Forest (Origin α)}
    (h : Grown registry tree parent? peers? forest) {levels : Nat}
    (hlevels : forest.size ≤ levels) :
    forest.rootIds.flatMap (tree.descendantsWithin levels) = forest.ids := by
  induction forest generalizing parent? peers? levels with
  | nil => rfl
  | cons o below rest ihBelow ihRest =>
      obtain ⟨⟨siblings, hget, -⟩, hbelow, hafter⟩ := h
      rw [Forest.size] at hlevels
      have hroots : (Forest.cons o below rest).rootIds
          = o.id :: rest.rootIds := rfl
      rw [hroots, Forest.ids_cons, List.flatMap_cons, ihRest hafter (by omega)]
      cases levels with
      | zero => omega
      | succ levels =>
          rw [ElementTree.descendantsWithin, hget]
          simp only [Option.map_some, Option.getD_some, List.cons_append]
          rw [ihBelow hbelow (by omega)]

theorem Grown.root {registry : MetadataRegistry α} {tree : ElementTree α}
    {parent? : Option ElementId} {peers? : Option (List ElementId)}
    {forest : Forest (Origin α)}
    (h : Grown registry tree parent? peers? forest) {k : ElementId}
    (hk : k ∈ forest.rootIds) :
    ∃ e, tree.get? k = some e ∧ e.parent? = parent?
      ∧ ∀ peers, peers? = some peers → e.siblings = peers := by
  induction forest with
  | nil => cases hk
  | cons o below rest _ ihRest =>
      obtain ⟨⟨siblings, hget, hpeers⟩, -, hafter⟩ := h
      rcases List.mem_cons.1 hk with rfl | hk
      · exact ⟨_, hget, rfl, hpeers⟩
      · exact ihRest hafter hk

/-- The children of an element of an outline come after it, point back to
it and know each other. -/
theorem Grown.children {registry : MetadataRegistry α}
    {tree : ElementTree α} {parent? : Option ElementId}
    {peers? : Option (List ElementId)} {forest : Forest (Origin α)}
    (h : Grown registry tree parent? peers? forest)
    (hasc : forest.ids.Pairwise (·.index < ·.index)) {id : ElementId}
    (hid : id ∈ forest.ids) :
    ∃ e, tree.get? id = some e ∧ e.children.Nodup
      ∧ ∀ k ∈ e.children, k ∈ forest.ids ∧ id.index < k.index
        ∧ ∃ ek, tree.get? k = some ek ∧ ek.parent? = some id
          ∧ ek.siblings = e.children := by
  induction forest generalizing parent? peers? with
  | nil => cases hid
  | cons o below rest ihBelow ihRest =>
      obtain ⟨⟨siblings, hget, -⟩, hbelow, hafter⟩ := h
      rw [Forest.ids_cons] at hasc hid ⊢
      obtain ⟨hhead, htail⟩ := List.pairwise_cons.1 hasc
      obtain ⟨hascBelow, hascRest, -⟩ := List.pairwise_append.1 htail
      rcases List.mem_cons.1 hid with rfl | hid
      · refine ⟨_, hget, ?_, ?_⟩
        · exact (List.nodup_append.1 (Forest.rootIds_nodup hascBelow)).1
        · intro k hk
          have hmem := List.mem_append_left rest.ids
            (Forest.mem_ids_of_mem_rootIds hk)
          obtain ⟨ek, hgetk, hparent, hpeers⟩ := hbelow.root hk
          exact ⟨List.mem_cons_of_mem _ hmem, hhead k hmem, ek, hgetk,
            hparent, hpeers _ rfl⟩
      · rcases List.mem_append.1 hid with hid | hid
        · obtain ⟨e, hgete, hnodup, hall⟩ := ihBelow hbelow hascBelow hid
          refine ⟨e, hgete, hnodup, fun k hk => ?_⟩
          obtain ⟨hmem, hlt⟩ := hall k hk
          exact ⟨List.mem_cons_of_mem _ (List.mem_append_left _ hmem), hlt⟩
        · obtain ⟨e, hgete, hnodup, hall⟩ := ihRest hafter hascRest hid
          refine ⟨e, hgete, hnodup, fun k hk => ?_⟩
          obtain ⟨hmem, hlt⟩ := hall k hk
          exact ⟨List.mem_cons_of_mem _ (List.mem_append_right _ hmem), hlt⟩

/-- Every element of an outline is a root or somebody's child. -/
theorem Grown.parent {registry : MetadataRegistry α}
    {tree : ElementTree α} {parent? : Option ElementId}
    {peers? : Option (List ElementId)} {forest : Forest (Origin α)}
    (h : Grown registry tree parent? peers? forest) {id : ElementId}
    (hid : id ∈ forest.ids) :
    id ∈ forest.rootIds
      ∨ ∃ p ep, p ∈ forest.ids ∧ tree.get? p = some ep
        ∧ id ∈ ep.children := by
  induction forest generalizing parent? peers? with
  | nil => cases hid
  | cons o below rest ihBelow ihRest =>
      obtain ⟨⟨siblings, hget, -⟩, hbelow, hafter⟩ := h
      rw [Forest.ids_cons] at hid ⊢
      rcases List.mem_cons.1 hid with rfl | hid
      · exact Or.inl List.mem_cons_self
      rcases List.mem_append.1 hid with hid | hid
      · right
        rcases ihBelow hbelow hid with hroot | ⟨p, ep, hp, hgetp, hchild⟩
        · exact ⟨o.id, _, List.mem_cons_self, hget, hroot⟩
        · exact ⟨p, ep, List.mem_cons_of_mem _ (List.mem_append_left _ hp),
            hgetp, hchild⟩
      · rcases ihRest hafter hid with hroot | ⟨p, ep, hp, hgetp, hchild⟩
        · exact Or.inl (List.mem_cons_of_mem _ hroot)
        · exact Or.inr ⟨p, ep,
            List.mem_cons_of_mem _ (List.mem_append_right _ hp), hgetp,
            hchild⟩

-- ======================================================= the whole tree

/-- The outline of a whole tree, its root included. -/
def rootOutline (root : α) (below : Forest α) : Forest (Origin α) :=
  .cons ⟨⟨0⟩, root, absorbedBy root below⟩ (outline root 1 below) .nil

/-- What building the layers of a forest below a root leaves behind. -/
structure BuiltFrom (registry : MetadataRegistry α) (root : α)
    (below : Forest α) (built : BuiltTree α) : Prop where
  root_id : built.root = ⟨0⟩
  size : built.tree.size = below.size + 1
  stylesheet : built.stylesheet = built.tree.ids
  grown : Grown registry built.tree none (some []) (rootOutline root below)
  husked : ∀ h ∈ husks root 1 below,
    built.tree.get? h.1 = some (own registry h.2).husk

/-- Every tree that is built comes from what is below its root. -/
theorem builtFrom {registry : MetadataRegistry α}
    (hreg : Metadata.Decorates registry) {root : α} {built : BuiltTree α}
    (h : BuiltTree.build registry root = .ok built) :
    ∃ below : Forest α, below.IsBelow root
      ∧ BuiltFrom registry root below built := by
  obtain ⟨below, hbelow, hcons, hroot⟩ := build_eq_ok h
  refine ⟨below, hbelow, ?_⟩
  have heffect := plant_effect hreg root below {}
  rw [← hcons] at heffect
  have hzero : ({} : Construction α).tree.size = 0 := rfl
  obtain ⟨hsize, hsheet, htarget, -, hgrown, hhusked⟩ := heffect
  rw [hzero] at hsize hsheet htarget hgrown hhusked
  rw [Nat.zero_add] at hsize htarget hgrown hhusked
  refine ⟨hroot, hsize, ?_, ⟨⟨[], ?_, fun peers hpeers => ?_⟩, hgrown, trivial⟩,
    hhusked⟩
  · rw [hsheet, ElementTree.ids, hsize, List.range_eq_range']
    rfl
  · obtain ⟨-, -, hparent, -, hsiblings, -⟩ := own_links hreg root
    obtain ⟨-, hparent', -, hsiblings', -⟩ :=
      absorbAll_links registry (absorbedBy root below) (own registry root)
    rw [htarget, elementOf, ← hparent, ← hparent', ← hsiblings,
      ← hsiblings']
  · exact Option.some.inj hpeers

/-- The outline lists the elements in the order they were created in. -/
theorem rootOutline_ascending (root : α) (below : Forest α) :
    (rootOutline root below).ids.Pairwise (·.index < ·.index) := by
  rw [rootOutline, Forest.ids_cons]
  have hnil : (Forest.nil : Forest (Origin α)).ids = [] := rfl
  rw [hnil, List.append_nil, List.pairwise_cons]
  exact ⟨fun k hk => (outline_bounds hk).1, outline_ascending ..⟩

/-- An outline has at most one element for each layer. -/
theorem rootOutline_size_le (root : α) (below : Forest α) :
    (rootOutline root below).size ≤ below.size + 1 := by
  have := outline_size_le root 1 below
  rw [rootOutline, Forest.size, Forest.size]
  omega

namespace BuiltFrom

variable {registry : MetadataRegistry α} {root : α} {below : Forest α}
  {built : BuiltTree α}

/-- The elements of a built tree are those of its outline and the husks. -/
theorem outline_or_husk (h : BuiltFrom registry root below built)
    {id : ElementId} {e : Element α} (hget : built.tree.get? id = some e) :
    id ∈ (rootOutline root below).ids
      ∨ ∃ layer, e = (own registry layer).husk := by
  have hlt : id.index < below.size + 1 := by
    rw [← h.size]
    exact ElementTree.get?_isSome_iff.1 ⟨e, hget⟩
  rw [rootOutline, Forest.ids_cons]
  by_cases hzero : id.index = 0
  · left
    have hid : id = ⟨0⟩ := by
      cases id
      cases hzero
      rfl
    rw [hid]
    exact List.mem_cons_self
  · have hhigh : id.index < 1 + below.size := by omega
    rcases Construction.outline_or_husk root
      (Nat.pos_of_ne_zero hzero) hhigh with hmem | ⟨layer, hmem⟩
    · exact Or.inl (List.mem_cons_of_mem _ (List.mem_append_left _ hmem))
    · right
      have hhusk := h.husked _ hmem
      rw [hget] at hhusk
      exact ⟨layer, Option.some.inj hhusk⟩

/-- What is left of a merged layer has no links and declares nothing. -/
theorem husk_own (hreg : Metadata.Decorates registry) (layer : α) :
    (own registry layer).husk.parent? = none
      ∧ (own registry layer).husk.children = []
      ∧ (own registry layer).husk.siblings = []
      ∧ (own registry layer).husk.detached = true
      ∧ (own registry layer).husk.style.isEmpty = true :=
  ⟨rfl, rfl, (own_links hreg layer).2.2.2.2.1, rfl, rfl⟩

/-- The elements of the outline are the attached ones. -/
theorem mem_outline_iff (hreg : Metadata.Decorates registry)
    (h : BuiltFrom registry root below built) {id : ElementId}
    {e : Element α} (hget : built.tree.get? id = some e) :
    id ∈ (rootOutline root below).ids ↔ e.detached = false := by
  constructor
  · intro hid
    obtain ⟨e', hget', hattached⟩ := h.grown.attached hreg hid
    rw [hget] at hget'
    cases hget'
    exact hattached
  · intro hattached
    rcases h.outline_or_husk hget with hid | ⟨layer, rfl⟩
    · exact hid
    · rw [(husk_own hreg layer).2.2.2.1] at hattached
      cases hattached

/-- The children and the siblings of an element are all in the outline, so
no link leads to an absorbed element. -/
theorem linked (hreg : Metadata.Decorates registry)
    (h : BuiltFrom registry root below built) {id : ElementId}
    {e : Element α} (hget : built.tree.get? id = some e) :
    (∀ k ∈ e.children, k ∈ (rootOutline root below).ids)
      ∧ ∀ k ∈ e.siblings, k ∈ (rootOutline root below).ids := by
  have hasc := rootOutline_ascending root below
  rcases h.outline_or_husk hget with hid | ⟨layer, rfl⟩
  · obtain ⟨e', hget', -, hall⟩ := h.grown.children hasc hid
    rw [hget] at hget'
    cases hget'
    refine ⟨fun k hk => (hall k hk).1, ?_⟩
    rcases h.grown.parent hid with hroot | ⟨p, ep, hp, hgetp, hchild⟩
    · obtain ⟨e', hget', -, hpeers⟩ := h.grown.root hroot
      rw [hget] at hget'
      cases hget'
      rw [hpeers [] rfl]
      intro k hk
      cases hk
    · obtain ⟨ep', hgetp', -, hallp⟩ := h.grown.children hasc hp
      rw [hgetp] at hgetp'
      cases hgetp'
      obtain ⟨-, -, e', hget', -, hsiblings⟩ := hallp id hchild
      rw [hget] at hget'
      cases hget'
      rw [hsiblings]
      exact fun k hk => (hallp k hk).1
  · obtain ⟨-, hchildren, hsiblings, -⟩ := husk_own hreg layer
    rw [hchildren, hsiblings]
    exact ⟨List.forall_mem_nil _, List.forall_mem_nil _⟩

/-- An attached element other than the root stands once in one list of
children, that of its parent. -/
theorem attached_child (hreg : Metadata.Decorates registry)
    (h : BuiltFrom registry root below built) {id : ElementId}
    {e : Element α} (hget : built.tree.get? id = some e)
    (hattached : e.detached = false) (hroot : id ≠ built.root) :
    ∃ p ep, e.parent? = some p ∧ built.tree.get? p = some ep
      ∧ ep.detached = false ∧ p.index < id.index
      ∧ e.siblings = ep.children
      ∧ ∀ q eq, built.tree.get? q = some eq →
          eq.children.count id = if q = p then 1 else 0 := by
  have hasc := rootOutline_ascending root below
  have hid := (h.mem_outline_iff hreg hget).2 hattached
  rcases h.grown.parent hid with hfirst | ⟨p, ep, hp, hgetp, hchild⟩
  · rw [rootOutline] at hfirst
    rw [h.root_id] at hroot
    exact absurd (List.mem_singleton.1 hfirst) hroot
  · obtain ⟨ep', hgetp', hnodup, hallp⟩ := h.grown.children hasc hp
    rw [hgetp] at hgetp'
    cases hgetp'
    obtain ⟨-, hlt, e', hget', hparent, hsiblings⟩ := hallp id hchild
    rw [hget] at hget'
    cases hget'
    refine ⟨p, ep, hparent, hgetp,
      (h.mem_outline_iff hreg hgetp).1 hp, hlt, hsiblings, ?_⟩
    intro q eq hgetq
    -- listed once by its parent, and by nobody else
    by_cases hq : q = p
    · subst hq
      rw [hgetp] at hgetq
      cases hgetq
      rw [if_pos rfl, hnodup.count, if_pos hchild]
    · rw [if_neg hq, List.count_eq_zero]
      intro hmem
      rcases h.outline_or_husk hgetq with hqid | ⟨layer, rfl⟩
      · -- a second parent would be named by the element itself
        obtain ⟨eq', hgetq', -, hallq⟩ := h.grown.children hasc hqid
        rw [hgetq] at hgetq'
        cases hgetq'
        obtain ⟨-, -, e', hget', hparent', -⟩ := hallq id hmem
        rw [hget] at hget'
        cases hget'
        rw [hparent] at hparent'
        exact hq (Option.some.inj hparent').symm
      · rw [(husk_own hreg layer).2.1] at hmem
        cases hmem

/-- The descendants of the root are the outline, in its order. -/
theorem descendants_root (h : BuiltFrom registry root below built) :
    built.tree.descendants built.root = (rootOutline root below).ids := by
  have hlevels : (rootOutline root below).size ≤ built.tree.size := by
    rw [h.size]
    exact rootOutline_size_le root below
  have hdown := h.grown.descendants hlevels
  rw [← hdown, h.root_id]
  exact (List.append_nil _).symm

theorem wellFormed (hreg : Metadata.Decorates registry)
    (h : BuiltFrom registry root below built) :
    built.tree.WellFormed built.root := by
  have hasc := rootOutline_ascending root below
  have hmemRoot : built.root ∈ (rootOutline root below).rootIds := by
    rw [h.root_id]
    exact List.mem_cons_self
  obtain ⟨e₀, hget₀, hparent₀, -⟩ := h.grown.root hmemRoot
  have hdetached : ∀ id e, built.tree.get? id = some e →
      e.detached = true → id ∉ (rootOutline root below).ids := by
    intro id e hget hd hid
    rw [(h.mem_outline_iff hreg hget).1 hid] at hd
    cases hd
  refine
    { root_first := h.root_id
      root_get := ⟨e₀, hget₀, hparent₀,
        (h.mem_outline_iff hreg hget₀).1
          (Forest.mem_ids_of_mem_rootIds hmemRoot)⟩
      root_free := ?_
      child_lt := ?_
      detached_empty := ?_
      detached_free := ?_
      attached_child := fun id e => h.attached_child hreg
      visit_root := ?_
      descendants_root := ?_
      ascending := ?_ }
  · -- children come after their parent, and nothing comes before the root
    intro q eq hgetq hmem
    rcases h.outline_or_husk hgetq with hq | ⟨layer, rfl⟩
    · obtain ⟨eq', hgetq', -, hchildren⟩ := h.grown.children hasc hq
      rw [hgetq] at hgetq'
      cases hgetq'
      have hlt := (hchildren built.root hmem).2.1
      rw [h.root_id] at hlt
      exact Nat.not_lt_zero _ hlt
    · rw [(husk_own hreg layer).2.1] at hmem
      cases hmem
  · intro q eq hgetq k hk
    obtain ⟨e, hget, -⟩ :=
      h.grown.attached hreg ((h.linked hreg hgetq).1 k hk)
    exact ElementTree.get?_isSome_iff.1 ⟨e, hget⟩
  · intro id e hget hd
    rcases h.outline_or_husk hget with hid | ⟨layer, rfl⟩
    · exact absurd hid (hdetached id e hget hd)
    · obtain ⟨h1, h2, h3, -, h5⟩ := husk_own hreg layer
      exact ⟨h1, h2, h3, h5⟩
  · intro id e hget hd q eq hgetq
    obtain ⟨hchildren, hsiblings⟩ := h.linked hreg hgetq
    exact ⟨fun hmem => hdetached id e hget hd (hchildren id hmem),
      fun hmem => hdetached id e hget hd (hsiblings id hmem)⟩
  · have hvisit := h.grown.visit (Visit.done)
    rw [List.append_nil, List.append_nil] at hvisit
    rw [h.descendants_root, h.root_id]
    exact hvisit
  · -- both lists ascend, so it is enough that they have the same members
    rw [h.descendants_root]
    refine eq_of_ascending (fun a b hab => Nat.lt_asymm hab) hasc
      built.tree.attached_ascending ?_
    intro id
    rw [ElementTree.mem_attached_iff]
    constructor
    · exact h.grown.attached hreg
    · rintro ⟨e, hget, hattached⟩
      exact (h.mem_outline_iff hreg hget).2 hattached
  · rw [h.descendants_root]
    exact hasc

end BuiltFrom

end Construction

-- ======================================================= well-formedness

/-- Whatever layers are built, with handlers that only set attributes and
style properties: if building succeeds, the style sheet is the list of
all elements in the order of creation, and the tree is well-formed. -/
theorem build_wellFormed {registry : MetadataRegistry α}
    (hreg : Metadata.Decorates registry) {root : α} {built : BuiltTree α}
    (h : BuiltTree.build registry root = .ok built) :
    built.stylesheet = built.tree.ids
      ∧ built.tree.WellFormed built.root := by
  obtain ⟨below, -, hbuilt⟩ := Construction.builtFrom hreg h
  exact ⟨hbuilt.stylesheet, hbuilt.wellFormed hreg⟩

/-- A page with a folder that absorbs two layers of its name, the first
of them with a child, and keeps the layer between them. -/
def samplePage : ManifestLayer where
  name := "<body>"
  bounds := ⟨0, 0, 960, 600⟩
  kind := .normal
  pixels := .solid ⟨255, 255, 255, 255⟩
  children :=
    [.folder "logo[css:color=\"red\",css:height=\"9px\"]" ⟨0, 0, 960, 100⟩
      [{ ManifestLayer.solid "logo[css:color=\"blue\",attr:class=\"big\"]"
            ⟨10, 20, 200, 80⟩ ⟨0, 0, 0, 255⟩ with
          children := [.solid "mark" ⟨20, 30, 50, 50⟩ ⟨9, 9, 9, 0⟩] },
        .solid "tagline[css:float=\"none\"]" ⟨220, 30, 100, 20⟩
          ⟨7, 7, 7, 255⟩,
        .solid "logo" ⟨10, 20, 300, 90⟩ ⟨1, 2, 3, 255⟩],
      .solid "<p>" ⟨330, 200, 300, 200⟩ ⟨4, 5, 6, 255⟩]

/-- The sample page is built with handlers that decorate, and its tree is
well-formed. -/
theorem samplePage_wellFormed :
    Metadata.Decorates (Metadata.builtin : MetadataRegistry ManifestLayer)
      ∧ ∃ built, BuiltTree.build Metadata.builtin samplePage = .ok built
        ∧ built.stylesheet = built.tree.ids
        ∧ built.tree.WellFormed built.root := by
  refine ⟨Metadata.decorates_builtin, ?_⟩
  obtain ⟨built, hbuilt⟩ : ∃ built,
    BuiltTree.build Metadata.builtin samplePage = .ok built := ⟨_, rfl⟩
  exact ⟨built, hbuilt, build_wellFormed Metadata.decorates_builtin hbuilt⟩

end LayerPage
