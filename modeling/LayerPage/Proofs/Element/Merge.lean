/-
Merging in a forest. An absorbed element is taken out of its parent's
children, and its own children are handed to the target; where the target
stands is not looked at. So the links stay a forest exactly if the target
does not stand below the element that it absorbs (`merge_keeps_forest`).

# Why

Both directions follow a path of children. Whatever the target, a path in
the merged tree is one from before the merge, or it leads to the target
and goes on below the absorbed element (`above_of_above_merge`). If it
came back to where it started, the target would have stood below the
absorbed element. And if the target does stand there, it is handed the
first element on the way to itself, and the rest of the way is still
there (`above_self_merge`).
-/
import LayerPage.Proofs.Build.Invariant
import LayerPage.Proofs.Element.Links
import Mathlib.Data.List.Nodup

namespace LayerPage

variable {α : Type}

namespace ElementTree

namespace IsForest

variable {tree : ElementTree α} {target child : ElementId}

-- ================================================= links after a merge

/-- In a forest no element is its own child. -/
theorem not_mem_children_self (h : tree.IsForest) (id : ElementId) :
    id ∉ tree.childrenOf id := by
  intro hmem
  exact h.not_above_self id (.single hmem)

/-- In a forest only the recorded parent can have held what is taken
out. -/
theorem childrenOf_detach (h : tree.IsForest) (child i : ElementId) :
    (tree.detach child).childrenOf i
      = (tree.childrenOf i).filter (· ≠ child) := by
  rw [ElementTree.childrenOf_detach]
  by_cases hparent : tree.parentId? child = some i
  · rw [if_pos hparent]
  · rw [if_neg hparent, eq_comm, List.filter_eq_self]
    intro k hk
    rw [decide_eq_true_eq]
    intro hself
    exact hparent (h.parent_of_child i child (hself ▸ hk))

/-- Detaching an element leaves its own children to it. -/
theorem childrenOf_detach_self (h : tree.IsForest) (child : ElementId) :
    (tree.detach child).childrenOf child = tree.childrenOf child := by
  rw [h.childrenOf_detach, List.filter_eq_self]
  intro k hk
  rw [decide_eq_true_eq]
  intro hself
  exact h.not_mem_children_self child (hself ▸ hk)

/-- The target has the children of the absorbed element behind its own;
the absorbed one is nobody's child and has none. -/
theorem childrenOf_merge (h : tree.IsForest)
    (htarget : target.index < tree.size) (hne : target ≠ child)
    (i : ElementId) :
    (tree.merge target child).childrenOf i
      = if i = child then []
        else (tree.childrenOf i).filter (· ≠ child)
          ++ (if i = target then tree.childrenOf child else []) := by
  rw [ElementTree.childrenOf_merge htarget hne, h.childrenOf_detach_self,
    h.childrenOf_detach]
  by_cases ht : i = target
  · rw [if_pos ht, if_pos ht, if_neg (ht ▸ hne)]
  · rw [if_neg ht, if_neg ht, List.append_nil]

/-- Who is whose child after a merge: what the target was handed, and all
that was so before and has nothing to do with the absorbed element. -/
theorem mem_childrenOf_merge (h : tree.IsForest)
    (htarget : target.index < tree.size) (hne : target ≠ child)
    {p k : ElementId} :
    k ∈ (tree.merge target child).childrenOf p
      ↔ (p = target ∧ k ∈ tree.childrenOf child)
        ∨ (p ≠ child ∧ k ≠ child ∧ k ∈ tree.childrenOf p) := by
  rw [h.childrenOf_merge htarget hne]
  by_cases hp : p = child
  · subst hp
    simp [Ne.symm hne]
  · by_cases ht : p = target
    · simp [ht, hne, and_comm, or_comm]
    · simp [hp, ht, and_comm]

/-- After a merge the children of the merged element have the target as
parent, the element itself has none, and the rest keep theirs. -/
theorem parentId?_merge (h : tree.IsForest) (target child i : ElementId) :
    (tree.merge target child).parentId? i
      = if i ∈ tree.childrenOf child then some target
        else if i = child then none else tree.parentId? i := by
  rw [ElementTree.parentId?_merge, h.childrenOf_detach_self,
    ElementTree.parentId?_detach]
  intro k hk
  rw [h.childrenOf_detach_self] at hk
  exact h.child_lt hk

-- ============================================================== above

/-- Whatever stands above another element after a merge stood above it
before, or the target and the absorbed element stood between them. -/
theorem above_of_above_merge (h : tree.IsForest)
    (htarget : target.index < tree.size) (hne : target ≠ child)
    (hfree : ¬ tree.Above child target) {a b : ElementId}
    (hab : (tree.merge target child).Above a b) :
    tree.Above a b
      ∨ ((a = target ∨ tree.Above a target) ∧ tree.Above child b) := by
  induction hab with
  | single hk =>
      rcases (h.mem_childrenOf_merge htarget hne).1 hk with
        ⟨ha, hhanded⟩ | ⟨-, -, hold⟩
      · exact .inr ⟨.inl ha, .single hhanded⟩
      · exact .inl (.single hold)
  | tail _ hk ih =>
      rcases (h.mem_childrenOf_merge htarget hne).1 hk with
        ⟨hb, hhanded⟩ | ⟨-, -, hold⟩
      · subst hb
        rcases ih with habove | ⟨-, hbelow⟩
        · exact .inr ⟨.inr habove, .single hhanded⟩
        · -- handed over once already: the way back up to the target would
          -- have been a way down from the absorbed element
          exact absurd hbelow hfree
      · rcases ih with habove | ⟨ha, hbelow⟩
        · exact .inl (habove.tail hold)
        · exact .inr ⟨ha, hbelow.tail hold⟩

/-- A target below the element that it absorbs stands above itself. -/
theorem above_self_merge (h : tree.IsForest)
    (htarget : target.index < tree.size) (hne : target ≠ child)
    (hbelow : tree.Above child target) :
    (tree.merge target child).Above target target := by
  have hmem := @mem_childrenOf_merge _ _ _ _ h htarget hne
  -- the way down from the absorbed element starts at the target instead
  have hdown : ∀ {b}, tree.Above child b →
      (tree.merge target child).Above target b := by
    intro b hb
    induction hb with
    | single hk => exact .single (hmem.2 (.inl ⟨rfl, hk⟩))
    | @tail b c hb hk ih =>
        have hb_ne : b ≠ child := by
          intro hself
          exact h.not_above_self child (hself ▸ hb)
        have hc_ne : c ≠ child := by
          intro hself
          exact h.not_above_self child (hself ▸ hb.tail hk)
        exact ih.tail (hmem.2 (.inr ⟨hb_ne, hc_ne, hk⟩))
  exact hdown hbelow

-- ======================================================= still a forest

/-- After any merge, nothing is anybody's child twice. -/
theorem nodup_childrenOf_merge (h : tree.IsForest)
    (htarget : target.index < tree.size) (hne : target ≠ child)
    (p : ElementId) : ((tree.merge target child).childrenOf p).Nodup := by
  rw [h.childrenOf_merge htarget hne]
  by_cases hp : p = child
  · rw [if_pos hp]
    exact List.nodup_nil
  · rw [if_neg hp]
    apply List.Nodup.append
    · exact (h.children_nodup p).filter _
    · split
      · exact h.children_nodup child
      · exact List.nodup_nil
    · intro k hkept hhanded
      by_cases ht : p = target
      · rw [if_pos ht] at hhanded
        have hparent := h.parent_of_child p k (List.mem_filter.1 hkept).1
        rw [h.parent_of_child child k hhanded] at hparent
        exact hp (Option.some.inj hparent).symm
      · rw [if_neg ht] at hhanded
        exact List.not_mem_nil hhanded

/-- After any merge, a child points to the one whose child it is. -/
theorem parent_of_child_merge (h : tree.IsForest)
    (htarget : target.index < tree.size) (hne : target ≠ child)
    (p k : ElementId) (hk : k ∈ (tree.merge target child).childrenOf p) :
    (tree.merge target child).parentId? k = some p := by
  rw [h.parentId?_merge]
  rcases (h.mem_childrenOf_merge htarget hne).1 hk with
    ⟨rfl, hhanded⟩ | ⟨hp, hk_ne, hold⟩
  · rw [if_pos hhanded]
  · have hparent := h.parent_of_child p k hold
    rw [if_neg, if_neg hk_ne, hparent]
    intro hhanded
    rw [h.parent_of_child child k hhanded] at hparent
    exact hp (Option.some.inj hparent).symm

/-- A merge keeps a forest if the target is not below the merged element,
nor that element itself. -/
theorem merge (h : tree.IsForest) (htarget : target.index < tree.size)
    (hne : target ≠ child) (hfree : ¬ tree.Above child target) :
    (tree.merge target child).IsForest where
  children_nodup := h.nodup_childrenOf_merge htarget hne
  parent_of_child := h.parent_of_child_merge htarget hne
  not_above_self := by
    intro id hself
    rcases h.above_of_above_merge htarget hne hfree hself with
      hold | ⟨htop, hbelow⟩
    · exact h.not_above_self id hold
    · rcases htop with hself | habove
      · exact hfree (hself ▸ hbelow)
      · exact hfree (hbelow.trans habove)

end IsForest

/-- Merging any two elements of a forest: the links are a forest again,
and the visit from every element ends with its descendants, unless the
target stands below the element that it absorbs. In that case the target
is above itself, and no visit from it ends. -/
theorem merge_keeps_forest {tree : ElementTree α} (h : tree.IsForest)
    {target child : ElementId} (htarget : target.index < tree.size)
    (hne : target ≠ child) :
    ((tree.merge target child).IsForest ↔ ¬ tree.Above child target)
      ∧ (¬ tree.Above child target → ∀ id, id.index < tree.size →
        (tree.merge target child).Visit [id]
          ((tree.merge target child).descendants id))
      ∧ (tree.Above child target →
        (tree.merge target child).Above target target
          ∧ ∀ visited, ¬ (tree.merge target child).Visit [target] visited) := by
  refine ⟨⟨?_, h.merge htarget hne⟩, ?_, ?_⟩
  · intro hmerged hbelow
    exact hmerged.not_above_self target
      (h.above_self_merge htarget hne hbelow)
  · intro hfree id hid
    apply (h.merge htarget hne hfree).visit
    rw [size_merge]
    exact hid
  · intro hbelow
    have hself := h.above_self_merge htarget hne hbelow
    refine ⟨hself, ?_⟩
    intro visited hvisit
    exact hvisit.not_above_self target List.mem_cons_self hself

/-- The sample page, with its paragraph absorbed by the tag line, which
stands in another part of the page. -/
theorem samplePage_merge_keeps_forest :
    ∃ built, BuiltTree.build Metadata.builtin samplePage = .ok built
      ∧ built.tree.IsForest ∧ 3 < built.tree.size
      ∧ (built.tree.merge ⟨3⟩ ⟨6⟩).IsForest
      ∧ (built.tree.merge ⟨3⟩ ⟨6⟩).Visit [⟨0⟩]
        ((built.tree.merge ⟨3⟩ ⟨6⟩).descendants ⟨0⟩) := by
  obtain ⟨built, hbuild⟩ : ∃ built,
    BuiltTree.build Metadata.builtin samplePage = .ok built := ⟨_, rfl⟩
  have hsize : (BuiltTree.build Metadata.builtin samplePage).toOption.map
      (·.tree.size) = some 7 := by
    decide +kernel
  rw [hbuild] at hsize
  have hsize : built.tree.size = 7 := Option.some.inj hsize
  have hwell := (build_wellFormed Metadata.decorates_builtin hbuild).2
  have hfree : ¬ built.tree.Above ⟨6⟩ ⟨3⟩ := by
    intro hbelow
    exact absurd (hbelow.index_lt hwell.childrenOf_lt) (by decide)
  have hthree : (⟨3⟩ : ElementId).index < built.tree.size := by
    rw [hsize]
    decide
  have hzero : (⟨0⟩ : ElementId).index < built.tree.size := by
    rw [hsize]
    decide
  obtain ⟨hforest, hvisit, -⟩ :=
    @merge_keeps_forest _ _ hwell.isForest ⟨3⟩ ⟨6⟩ hthree (by decide)
  exact ⟨built, hbuild, hwell.isForest, hthree, hforest.2 hfree,
    hvisit hfree ⟨0⟩ hzero⟩

/-- Two elements, the second of them the child of the first. -/
def couple : ElementTree ManifestLayer :=
  let first := Element.create "div" "a"
    (ManifestLayer.solid "a" ⟨0, 0, 10, 10⟩ ⟨0, 0, 0, 255⟩)
  let second := Element.create "div" "b"
    (ManifestLayer.solid "b" ⟨1, 2, 3, 4⟩ ⟨255, 255, 255, 255⟩)
  let tree : ElementTree ManifestLayer := {}
  ((tree.insert first).1.insert second).1.appendChild ⟨0⟩ ⟨1⟩

theorem childrenOf_couple (id : ElementId) :
    couple.childrenOf id = if id = ⟨0⟩ then [⟨1⟩] else [] := by
  unfold couple
  simp only
  rw [childrenOf_appendChild (by decide), childrenOf_insert,
    childrenOf_insert]
  have hnone : childrenOf (α := ManifestLayer) {} id = [] := rfl
  have hfirst : ∀ name layer, (Element.create (α := ManifestLayer) "div"
      name layer).children = [] := by
    intro name layer
    unfold Element.create
    split
    · rfl
    · rfl
  rw [hnone, hfirst, hfirst, ite_self, ite_self, List.nil_append]

/-- The couple is a forest, so a merge that breaks it starts from a sound
tree. -/
theorem couple_isForest : couple.IsForest := by
  have hmem : ∀ {p k}, k ∈ couple.childrenOf p → p = ⟨0⟩ ∧ k = ⟨1⟩ := by
    intro p k hk
    rw [childrenOf_couple] at hk
    split at hk
    · exact ⟨‹_›, List.mem_singleton.1 hk⟩
    · exact absurd hk List.not_mem_nil
  constructor
  · intro p
    rw [childrenOf_couple]
    split
    · exact List.nodup_singleton _
    · exact List.nodup_nil
  · intro p k hk
    obtain ⟨hp, hk⟩ := hmem hk
    rw [hp, hk]
    rfl
  · intro id hself
    refine Nat.lt_irrefl _ (hself.index_lt ?_)
    intro p k hk
    obtain ⟨hp, hk⟩ := hmem hk
    rw [hp, hk]
    exact Nat.one_pos

/-- The second element absorbs the first and is handed itself: it is its
own child and its own parent, and the visit from it never ends. -/
theorem couple_merge_cyclic :
    couple.IsForest ∧ couple.size = 2 ∧ (⟨1⟩ : ElementId) ≠ ⟨0⟩
      ∧ (couple.merge ⟨1⟩ ⟨0⟩).childrenOf ⟨1⟩ = [⟨1⟩]
      ∧ (couple.merge ⟨1⟩ ⟨0⟩).parentId? ⟨1⟩ = some ⟨1⟩
      ∧ ¬ (couple.merge ⟨1⟩ ⟨0⟩).IsForest
      ∧ ∀ visited, ¬ (couple.merge ⟨1⟩ ⟨0⟩).Visit [⟨1⟩] visited := by
  have hchildren : (couple.merge ⟨1⟩ ⟨0⟩).childrenOf ⟨1⟩ = [⟨1⟩] := by
    decide +kernel
  have hself : (couple.merge ⟨1⟩ ⟨0⟩).Above ⟨1⟩ ⟨1⟩ := by
    apply Relation.TransGen.single
    rw [hchildren]
    exact List.mem_singleton_self _
  refine ⟨couple_isForest, rfl, by decide, hchildren, by decide +kernel, ?_,
    ?_⟩
  · intro hmerged
    exact hmerged.not_above_self ⟨1⟩ hself
  · intro visited hvisit
    exact hvisit.not_above_self ⟨1⟩ List.mem_cons_self hself

end ElementTree

end LayerPage
