/-
The children of an element in flow, as each of them sees it. An element
sorts its own copy of its peers whenever it looks for its neighbours, so
that nothing but the build makes the children of one parent agree. They
do (`IsFlow`): all see one order, which lists each of them once from top
to bottom and from left to right, in the order of layers where two stand
at one place; looking back undoes looking ahead; and who looks ahead from
the first child, again and again, comes past every child once.

`FlowWalk` is looking ahead until there is nobody left, as a relation: a
derivation is a walk that ends. Every end of the flow is such a walk
(`flowWalk_suffix`), by induction on what is left of the flow.
-/
import Mathlib.Logic.ExistsUnique
import LayerPage.Proofs.Build.Invariant
import LayerPage.Proofs.Flow

namespace LayerPage

-- ================================================================ pairs

section

variable {β : Type}

/-- Two different items of a list stand in it in one order or the other. -/
theorem pair_sublist_or {l : List β} {x y : β} (hx : x ∈ l) (hy : y ∈ l)
    (hne : x ≠ y) : [x, y].Sublist l ∨ [y, x].Sublist l := by
  induction l with
  | nil => cases hx
  | cons a rest ih =>
      rcases List.mem_cons.1 hx with rfl | hx'
      · rcases List.mem_cons.1 hy with rfl | hy'
        · exact absurd rfl hne
        · exact .inl (.cons_cons x (List.singleton_sublist.2 hy'))
      · rcases List.mem_cons.1 hy with rfl | hy'
        · exact .inr (.cons_cons y (List.singleton_sublist.2 hx'))
        · exact (ih hx' hy').imp (.cons a) (.cons a)

/-- They stand in it in one order alone if nothing is listed twice. -/
theorem not_pair_sublist_swap {l : List β} (hnodup : l.Nodup) {x y : β}
    (hxy : [x, y].Sublist l) : ¬[y, x].Sublist l := by
  intro hyx
  induction l with
  | nil => cases hxy
  | cons a rest ih =>
      obtain ⟨hfresh, hrest⟩ := List.nodup_cons.1 hnodup
      cases hxy with
      | cons _ hxy =>
          cases hyx with
          | cons _ hyx => exact ih hrest hxy hyx
          | cons_cons _ hx =>
              exact hfresh (hxy.subset (by simp))
      | cons_cons _ hy =>
          cases hyx with
          | cons _ hyx => exact hfresh (hyx.subset (by simp))
          | cons_cons _ hx =>
              exact hfresh (List.singleton_sublist.1 hy)

end

namespace ElementTree

/-- Nothing stands after the last item alone. -/
theorem after?_eq_none_iff {β : Type} [DecidableEq β] {l : List β}
    (hnodup : l.Nodup) {x : β} (hx : x ∈ l) :
    after? x l = none ↔ l.getLast? = some x := by
  induction l with
  | nil => cases hx
  | cons a rest ih =>
      obtain ⟨hfresh, hrest⟩ := List.nodup_cons.1 hnodup
      cases rest with
      | nil => simpa [after?, eq_comm] using hx
      | cons b rest =>
          rw [after?, List.getLast?_cons_cons]
          by_cases ha : a = x
          · subst ha
            rw [if_pos rfl]
            refine iff_of_false (Option.some_ne_none b) ?_
            intro hlast
            exact hfresh (List.mem_of_mem_getLast? hlast)
          · rw [if_neg ha]
            refine ih hrest ?_
            exact (List.mem_cons.1 hx).resolve_left fun h => ha h.symm

variable {α : Type} [Layer α]

-- ============================================================== the order

/-- Whether one of several peers stands before another one in flow: higher
up, or level and further to the left, or at the same place and listed
earlier. -/
def StandsBefore (tree : ElementTree α) (peers : List ElementId)
    (a b : ElementId) : Prop :=
  (tree.boundsAt a).top < (tree.boundsAt b).top
    ∨ (tree.boundsAt a).top = (tree.boundsAt b).top
      ∧ ((tree.boundsAt a).left < (tree.boundsAt b).left
        ∨ (tree.boundsAt a).left = (tree.boundsAt b).left
          ∧ [a, b].Sublist peers)

/-- Sorting keeps what stands at one place in its order. -/
theorem flow_pairwise (tree : ElementTree α) {parent : ElementId}
    (hnodup : (tree.flow parent).Nodup) :
    (tree.flow parent).Pairwise
      (tree.StandsBefore (tree.childrenOf parent)) := by
  have htrans : ∀ a b c : ElementId,
      flowLe (tree.boundsAt a) (tree.boundsAt b) = true →
      flowLe (tree.boundsAt b) (tree.boundsAt c) = true →
      flowLe (tree.boundsAt a) (tree.boundsAt c) = true :=
    fun _ _ _ => flowLe_trans
  have htotal : ∀ a b : ElementId,
      (flowLe (tree.boundsAt a) (tree.boundsAt b)
        || flowLe (tree.boundsAt b) (tree.boundsAt a)) = true :=
    fun _ _ => flowLe_total _ _
  rw [List.pairwise_iff_forall_sublist]
  intro a b hpair
  have hle : flowLe (tree.boundsAt a) (tree.boundsAt b) = true :=
    List.pairwise_iff_forall_sublist.1 (tree.flow_flowLe parent) hpair
  have ha : a ∈ tree.childrenOf parent :=
    mem_flow.1 (hpair.subset List.mem_cons_self)
  have hb : b ∈ tree.childrenOf parent :=
    mem_flow.1 (hpair.subset (List.mem_cons_of_mem _ List.mem_cons_self))
  have hne : a ≠ b := by
    rintro rfl
    have := hpair.nodup hnodup
    simp at this
  -- sorting is stable
  have htie : flowLe (tree.boundsAt b) (tree.boundsAt a) = true →
      [a, b].Sublist (tree.childrenOf parent) := by
    intro hback
    rcases pair_sublist_or ha hb hne with hab | hba
    · exact hab
    · -- being level, they would have stayed the other way round
      have hswapped : [b, a].Sublist (tree.flow parent) :=
        List.pair_sublist_mergeSort htrans htotal hback hba
      exact absurd hpair (not_pair_sublist_swap hnodup hswapped)
  unfold StandsBefore
  simp only [flowLe, Bool.or_eq_true, Bool.and_eq_true, decide_eq_true_eq,
    beq_iff_eq] at hle htie
  rcases hle with htop | ⟨htop, hleft⟩
  · exact .inl htop
  · refine .inr ⟨htop, ?_⟩
    rcases Int.lt_or_eq_of_le hleft with hleft | hleft
    · exact .inl hleft
    · exact .inr ⟨hleft, htie (.inr ⟨htop.symm, Int.le_of_eq hleft.symm⟩)⟩

-- =============================================================== walking

/-- A walk from an element on to its successor in flow, and so on, until
there is none. -/
inductive FlowWalk (tree : ElementTree α) :
    ElementId → List ElementId → Prop
  | last {id : ElementId} :
      tree.nextInFlow? id = none → FlowWalk tree id [id]
  | step {id next : ElementId} {later : List ElementId} :
      tree.nextInFlow? id = some next → FlowWalk tree next later →
      FlowWalk tree id (id :: later)

/-- There is one way to walk. -/
theorem FlowWalk.unique {tree : ElementTree α} {id : ElementId}
    {walk other : List ElementId} (h : tree.FlowWalk id walk)
    (hother : tree.FlowWalk id other) : walk = other := by
  induction h generalizing other with
  | last hnone =>
      cases hother with
      | last _ => rfl
      | step hnext _ =>
          rw [hnone] at hnext
          cases hnext
  | step hnext _ ih =>
      cases hother with
      | last hnone =>
          rw [hnone] at hnext
          cases hnext
      | step hnext' hlater =>
          rw [hnext] at hnext'
          cases hnext'
          rw [ih hlater]

namespace WellFormed

variable {tree : ElementTree α} {root : ElementId}

/-- Exactly the last element of a flow has no next one. -/
theorem nextInFlow?_eq_none_iff (h : tree.WellFormed root)
    {id p : ElementId} (hparent : tree.parentId? id = some p) :
    tree.nextInFlow? id = none ↔ (tree.flow p).getLast? = some id := by
  unfold nextInFlow?
  rw [h.flowOrder_eq hparent]
  exact after?_eq_none_iff (h.flow_nodup p) (h.mem_flow_iff.2 hparent)

/-- From every child on, the walk is what is left of the flow. -/
theorem flowWalk_suffix (h : tree.WellFormed root) {p id : ElementId}
    {later : List ElementId} (hsuffix : (id :: later) <:+ tree.flow p) :
    tree.FlowWalk id (id :: later) := by
  have hparent : tree.parentId? id = some p :=
    h.mem_flow_iff.1 (hsuffix.subset List.mem_cons_self)
  induction later generalizing id with
  | nil =>
      refine .last ((h.nextInFlow?_eq_none_iff hparent).2 ?_)
      obtain ⟨before, hsplit⟩ := hsuffix
      rw [← hsplit]
      exact List.getLast?_concat
  | cons next later ih =>
      have hrest : (next :: later) <:+ tree.flow p :=
        (List.suffix_cons id _).trans hsuffix
      refine .step ?_ (ih hrest
        (h.mem_flow_iff.1 (hrest.subset List.mem_cons_self)))
      rw [h.nextInFlow?_eq_some_iff hparent]
      obtain ⟨before, hsplit⟩ := hsuffix
      exact ⟨before, later, by rw [← hsplit]; simp⟩

/-- Only children have a successor: the root and detached elements have no
peers. -/
theorem exists_parent_of_next (h : tree.WellFormed root)
    (hroot : ∀ e, tree.get? root = some e → e.siblings = [])
    {id next : ElementId} (hnext : tree.nextInFlow? id = some next) :
    ∃ p, tree.parentId? id = some p := by
  have halone : tree.flowOrder id ≠ [] := by
    intro hempty
    unfold nextInFlow? at hnext
    rw [hempty] at hnext
    cases hnext
  cases hget : tree.get? id with
  | none =>
      refine absurd ?_ halone
      unfold flowOrder
      rw [hget]
      exact List.mergeSort_nil
  | some e =>
      have hpeers : e.siblings ≠ [] := by
        intro hempty
        refine halone ?_
        unfold flowOrder
        rw [hget, Option.map_some, Option.getD_some, hempty]
        exact List.mergeSort_nil
      have hattached : e.detached = false := by
        cases hd : e.detached with
        | false => rfl
        | true =>
            exact absurd (h.detached_empty id e hget hd).2.2.1 hpeers
      have hbelow : id ≠ root := by
        rintro rfl
        exact hpeers (hroot e hget)
      obtain ⟨p, -, hp, -⟩ := h.attached_child id e hget hattached hbelow
      exact ⟨p, Option.bind_eq_some_iff.2 ⟨e, hget, hp⟩⟩

end WellFormed

-- ============================================================== one flow

/-- Whether children see each other in one order. -/
structure IsFlow (tree : ElementTree α)
    (children order : List ElementId) : Prop where
  /-- Every child is listed once. -/
  perm : order.Perm children
  nodup : order.Nodup
  /-- From top to bottom, then from left to right, then as the children
  are listed. -/
  sorted : order.Pairwise (tree.StandsBefore children)
  /-- All children see this order. -/
  shared : ∀ id ∈ children, tree.flowOrder id = order
  /-- Looking back undoes looking ahead, from whatever element. -/
  inverse : ∀ id ∈ children, ∀ p,
    tree.prevInFlow? id = some p ↔ tree.nextInFlow? p = some id
  first : ∃! id, id ∈ children ∧ tree.prevInFlow? id = none
  last : ∃! id, id ∈ children ∧ tree.nextInFlow? id = none
  /-- The walk from the first child comes to an end, and passes the
  children in this order. -/
  walk : ∀ id ∈ children, tree.prevInFlow? id = none →
    ∀ walk, tree.FlowWalk id walk ↔ walk = order

/-- The children of an element in a well-formed tree see its flow. -/
theorem WellFormed.isFlow {tree : ElementTree α} {root : ElementId}
    (h : tree.WellFormed root)
    (hroot : ∀ e, tree.get? root = some e → e.siblings = [])
    {p child : ElementId} (hchild : tree.parentId? child = some p) :
    tree.IsFlow (tree.childrenOf p) (tree.flow p) := by
  have hparent : ∀ id ∈ tree.childrenOf p, tree.parentId? id = some p :=
    fun id hid => h.mem_flow_iff.1 (mem_flow.2 hid)
  have hnonempty : tree.flow p ≠ [] :=
    List.ne_nil_of_mem (h.mem_flow_iff.2 hchild)
  have hfirst : ∀ id ∈ tree.childrenOf p, tree.prevInFlow? id = none →
      (tree.flow p).head? = some id :=
    fun id hid => (h.prevInFlow?_eq_none_iff (hparent id hid)).1
  have hlast : ∀ id ∈ tree.childrenOf p, tree.nextInFlow? id = none →
      (tree.flow p).getLast? = some id :=
    fun id hid => (h.nextInFlow?_eq_none_iff (hparent id hid)).1
  refine
    { perm := List.mergeSort_perm ..
      nodup := h.flow_nodup p
      sorted := tree.flow_pairwise (h.flow_nodup p)
      shared := fun id hid => h.flowOrder_eq (hparent id hid)
      inverse := ?_, first := ?_, last := ?_, walk := ?_ }
  · intro id hid other
    constructor
    · intro hprev
      have hother := h.parentId?_of_prevInFlow? (hparent id hid) hprev
      exact (h.nextInFlow?_iff_prevInFlow? hother).2 ⟨hparent id hid, hprev⟩
    · intro hnext
      obtain ⟨q, hq⟩ := h.exists_parent_of_next hroot hnext
      exact ((h.nextInFlow?_iff_prevInFlow? hq).1 hnext).2
  · -- the head of the flow is the one without a previous element
    have hhead := List.head?_eq_some_head hnonempty
    have hmem := mem_flow.1 (List.mem_of_mem_head? hhead)
    refine ⟨_, ⟨hmem, (h.prevInFlow?_eq_none_iff (hparent _ hmem)).2 hhead⟩,
      ?_⟩
    rintro id ⟨hid, hnone⟩
    exact Option.some.inj ((hfirst id hid hnone).symm.trans hhead)
  · have hend := List.getLast?_eq_some_getLast hnonempty
    have hmem := mem_flow.1 (List.mem_of_mem_getLast? hend)
    refine ⟨_, ⟨hmem, (h.nextInFlow?_eq_none_iff (hparent _ hmem)).2 hend⟩,
      ?_⟩
    rintro id ⟨hid, hnone⟩
    exact Option.some.inj ((hlast id hid hnone).symm.trans hend)
  · -- walking from the head goes through the whole flow
    intro id hid hnone walk
    obtain ⟨later, hflow⟩ := List.head?_eq_some_iff.1 (hfirst id hid hnone)
    have hsuffix : (id :: later) <:+ tree.flow p := hflow ▸ List.suffix_rfl
    have hwalk : tree.FlowWalk id (tree.flow p) := by
      rw [hflow]
      exact h.flowWalk_suffix hsuffix
    constructor
    · exact fun hother => hother.unique hwalk
    · rintro rfl
      exact hwalk

end ElementTree

-- ========================================================== built trees

variable {α : Type} [Layer α]

/-- The root of a built tree has no peers. -/
theorem Construction.BuiltFrom.siblings_root
    {registry : MetadataRegistry α} {root : α} {below : Forest α}
    {built : BuiltTree α} (h : BuiltFrom registry root below built)
    {e : Element α} (hget : built.tree.get? built.root = some e) :
    e.siblings = [] := by
  have hroot : built.root ∈ (rootOutline root below).rootIds := by
    rw [h.root_id]
    exact List.mem_cons_self
  obtain ⟨e', hget', -, hpeers⟩ := h.grown.root hroot
  rw [hget] at hget'
  cases hget'
  exact hpeers [] rfl

/-- Whatever layers are built: an attached element other than the root is
one of the children of its parent, and these see each other in one
order. -/
theorem build_isFlow {registry : MetadataRegistry α}
    (hreg : Metadata.Decorates registry) {root : α} {built : BuiltTree α}
    (h : BuiltTree.build registry root = .ok built) {id : ElementId}
    {e : Element α} (hget : built.tree.get? id = some e)
    (hattached : e.detached = false) (hroot : id ≠ built.root) :
    ∃ p parent, e.parent? = some p ∧ built.tree.get? p = some parent
      ∧ id ∈ parent.children
      ∧ built.tree.IsFlow parent.children (built.tree.flowOrder id) := by
  obtain ⟨below, -, hbuilt⟩ := Construction.builtFrom hreg h
  have hwell := hbuilt.wellFormed hreg
  obtain ⟨p, -, hp, -⟩ := hwell.attached_child id e hget hattached hroot
  obtain ⟨parent, hgetp, hmem, -⟩ := hwell.parent hget hp
  have hparent : built.tree.parentId? id = some p :=
    Option.bind_eq_some_iff.2 ⟨e, hget, hp⟩
  refine ⟨p, parent, hp, hgetp, hmem, ?_⟩
  rw [hwell.flowOrder_eq hparent, ← ElementTree.childrenOf_of_get? hgetp]
  exact hwell.isFlow (fun _ => hbuilt.siblings_root) hparent

/-- What stays in the folder of the sample page: the child of a layer that
was absorbed, and the layer behind it. -/
theorem samplePage_isFlow :
    Metadata.Decorates (Metadata.builtin : MetadataRegistry ManifestLayer)
      ∧ ∃ built, BuiltTree.build Metadata.builtin samplePage = .ok built
        ∧ ∃ e, built.tree.get? ⟨4⟩ = some e ∧ e.detached = false
          ∧ (⟨4⟩ : ElementId) ≠ built.root
          ∧ ∃ p parent, e.parent? = some p
            ∧ built.tree.get? p = some parent ∧ ⟨4⟩ ∈ parent.children
            ∧ built.tree.IsFlow parent.children
              (built.tree.flowOrder ⟨4⟩) := by
  obtain ⟨built, hbuild⟩ : ∃ built,
    BuiltTree.build Metadata.builtin samplePage = .ok built := ⟨_, rfl⟩
  have hrun : (BuiltTree.build Metadata.builtin samplePage).toOption.map
      (fun built => (decide ((⟨4⟩ : ElementId) ≠ built.root),
        (built.tree.get? ⟨4⟩).map (·.detached)))
      = some (true, some false) := by
    decide +kernel
  rw [hbuild] at hrun
  obtain ⟨hother, hdetached⟩ := Prod.mk.inj (Option.some.inj hrun)
  have hbelow : (⟨4⟩ : ElementId) ≠ built.root := of_decide_eq_true hother
  obtain ⟨e, hget, hattached⟩ := Option.map_eq_some_iff.1 hdetached
  exact ⟨Metadata.decorates_builtin, built, hbuild, e, hget, hattached,
    hbelow, build_isFlow Metadata.decorates_builtin hbuild hget hattached
      hbelow⟩

end LayerPage
