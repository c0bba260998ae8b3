/-
Absorbing a child. What a merge does when an element takes in one of its
own children: the whole tree after it, element by element, in terms of the
tree before it (`merge_absorbs`).

# Nothing lost, nothing twice

Which elements are below another one is a matter of paths, and a visit
meets each of them once (`mem_descendants_iff`, `nodup_descendants`). So it
is enough to compare paths: a path of the merged tree is one from before
that does not pass the absorbed element, since whatever led through it came
from the target and now starts there (`above_merge_iff`).
-/
import LayerPage.Proofs.Element.Merge
import LayerPage.Proofs.Style

namespace LayerPage

variable {α : Type}

namespace ElementTree

-- ========================================================== descendants

/-- A visit meets the pending elements and what is below them. -/
theorem Visit.mem_iff {tree : ElementTree α}
    {pending visited : List ElementId} (h : tree.Visit pending visited)
    {d : ElementId} :
    d ∈ visited ↔ ∃ p ∈ pending, d = p ∨ tree.Above p d := by
  induction h with
  | done => simp
  | @step id e pending visited hget _ ih =>
      have hbelow : tree.Above id d
          ↔ ∃ k ∈ e.children, d = k ∨ tree.Above k d := by
        rw [Above, Relation.TransGen.head'_iff, childrenOf_of_get? hget]
        simp only [Relation.reflTransGen_iff_eq_or_transGen]
      rw [List.mem_cons, ih]
      simp only [List.mem_cons, List.mem_append, or_and_right, exists_or,
        exists_eq_left, hbelow, or_assoc]

/-- What stands above another element is one of the tree. -/
theorem Above.lt_size {tree : ElementTree α} {a b : ElementId}
    (h : tree.Above a b) : a.index < tree.size := by
  obtain ⟨k, hk, -⟩ := Relation.TransGen.head'_iff.1 h
  obtain ⟨e, hget, -⟩ := exists_get?_of_mem_childrenOf hk
  exact get?_isSome_iff.1 ⟨e, hget⟩

namespace IsForest

variable {tree : ElementTree α} {target child : ElementId}

/-- Nothing is the child of two elements. -/
theorem eq_of_child (h : tree.IsForest) {p q k : ElementId}
    (hp : k ∈ tree.childrenOf p) (hq : k ∈ tree.childrenOf q) : p = q := by
  have hsame := h.parent_of_child p k hp
  rw [h.parent_of_child q k hq] at hsame
  exact (Option.some.inj hsame).symm

/-- The last step on the way to a child is the one from its parent. -/
theorem above_child_iff (h : tree.IsForest) {p k a : ElementId}
    (hk : k ∈ tree.childrenOf p) :
    tree.Above a k ↔ a = p ∨ tree.Above a p := by
  constructor
  · intro hab
    cases hab with
    | single hstep => exact .inl (h.eq_of_child hstep hk)
    | @tail q _ hup hstep =>
        rw [h.eq_of_child hstep hk] at hup
        exact .inr hup
  · rintro (rfl | hup)
    · exact .single hk
    · exact hup.tail hk

/-- A visit of different elements, none of them above another, meets
nothing twice. -/
theorem nodup_visit (h : tree.IsForest) {pending visited : List ElementId}
    (hvisit : tree.Visit pending visited) (hnodup : pending.Nodup)
    (hapart : ∀ a ∈ pending, ∀ b ∈ pending, ¬ tree.Above a b) :
    visited.Nodup := by
  induction hvisit with
  | done => exact List.nodup_nil
  | @step id e pending visited hget hrest ih =>
      have hchildren : tree.childrenOf id = e.children :=
        childrenOf_of_get? hget
      have hup : ∀ {a k}, k ∈ e.children →
          (tree.Above a k ↔ a = id ∨ tree.Above a id) := by
        intro a k hk
        exact h.above_child_iff (hchildren ▸ hk)
      obtain ⟨hfresh, hnodup⟩ := List.nodup_cons.1 hnodup
      obtain ⟨hown, hothers⟩ := List.forall_mem_cons.1 hapart
      -- the children of an element stay apart from all that is pending
      have hfree : ∀ b ∈ pending, ¬ tree.Above id b :=
        (List.forall_mem_cons.1 hown).2
      have hlower : ∀ a ∈ pending, ∀ k ∈ e.children, ¬ tree.Above a k := by
        intro a ha k hk hak
        rcases (hup hk).1 hak with rfl | hai
        · exact hfresh ha
        · exact hothers a ha id List.mem_cons_self hai
      have hupper : ∀ k ∈ e.children, ∀ b ∈ pending, ¬ tree.Above k b :=
        fun k hk b hb hkb => hfree b hb (((hup hk).2 (.inl rfl)).trans hkb)
      have hpeers : ∀ k ∈ e.children, ¬ (k = id ∨ tree.Above k id) := by
        intro k hk hki
        exact h.not_above_self k ((hup hk).2 hki)
      refine List.nodup_cons.2 ⟨?_, ih ?_ ?_⟩
      · rw [hrest.mem_iff]
        rintro ⟨p, hp, hmeets⟩
        rcases List.mem_append.1 hp with hp | hp
        · exact hpeers p hp (hmeets.imp_left Eq.symm)
        · rcases hmeets with rfl | hpi
          · exact hfresh hp
          · exact hothers p hp id List.mem_cons_self hpi
      · refine List.Nodup.append (hchildren ▸ h.children_nodup id) hnodup ?_
        intro k hk hpending
        exact hfree k hpending ((hup hk).2 (.inl rfl))
      · intro a ha b hb
        rcases List.mem_append.1 ha with ha | ha
        · rcases List.mem_append.1 hb with hb | hb
          · rw [hup hb]
            exact hpeers a ha
          · exact hupper a ha b hb
        · rcases List.mem_append.1 hb with hb | hb
          · exact hlower a ha b hb
          · exact hothers a ha b (List.mem_cons_of_mem _ hb)

/-- The descendants of an element are itself and all that is below. -/
theorem mem_descendants_iff (h : tree.IsForest) {id d : ElementId}
    (hid : id.index < tree.size) :
    d ∈ tree.descendants id ↔ d = id ∨ tree.Above id d := by
  rw [(h.visit hid).mem_iff]
  simp

/-- In a forest no element is met twice below another. -/
theorem nodup_descendants (h : tree.IsForest) {id : ElementId}
    (hid : id.index < tree.size) : (tree.descendants id).Nodup := by
  apply h.nodup_visit (h.visit hid) (List.nodup_singleton id)
  intro a ha b hb
  rw [List.mem_singleton.1 ha, List.mem_singleton.1 hb]
  exact h.not_above_self id

-- =============================================== paths after a merge

/-- An element is not below the one that it absorbs if that is its child. -/
theorem not_above_parent (h : tree.IsForest)
    (hchild : child ∈ tree.childrenOf target) :
    target ≠ child ∧ ¬ tree.Above child target := by
  constructor
  · rintro rfl
    exact h.not_mem_children_self target hchild
  · intro hbelow
    exact h.not_above_self child (hbelow.tail hchild)

/-- The paths of the merged tree are those from before between elements
other than the absorbed one. -/
theorem above_merge_iff (h : tree.IsForest)
    (htarget : target.index < tree.size)
    (hchild : child ∈ tree.childrenOf target) {a b : ElementId} :
    (tree.merge target child).Above a b
      ↔ a ≠ child ∧ b ≠ child ∧ tree.Above a b := by
  obtain ⟨hne, hfree⟩ := h.not_above_parent hchild
  have hmem := @mem_childrenOf_merge _ _ _ _ h htarget hne
  constructor
  · intro hab
    refine ⟨?_, ?_, ?_⟩
    · rintro rfl
      obtain ⟨k, hk, -⟩ := Relation.TransGen.head'_iff.1 hab
      rcases hmem.1 hk with ⟨hself, -⟩ | ⟨hself, -⟩
      · exact hne hself.symm
      · exact hself rfl
    · rintro rfl
      obtain ⟨p, -, hk⟩ := Relation.TransGen.tail'_iff.1 hab
      rcases hmem.1 hk with ⟨-, hself⟩ | ⟨-, hself, -⟩
      · exact h.not_mem_children_self b hself
      · exact hself rfl
    · rcases h.above_of_above_merge htarget hne hfree hab with
        hold | ⟨htop, hbelow⟩
      · exact hold
      · exact ((h.above_child_iff hchild).2 htop).trans hbelow
  · rintro ⟨ha, hb, hab⟩
    -- a path that has come to the absorbed element stands at the target
    have hway : ∀ {c}, tree.Above a c →
        (c ≠ child → (tree.merge target child).Above a c)
          ∧ (c = child → a = target
            ∨ (tree.merge target child).Above a target) := by
      intro c hac
      induction hac with
      | @single c hk =>
          constructor
          · intro hc
            exact .single (hmem.2 (.inr ⟨ha, hc, hk⟩))
          · rintro rfl
            exact .inl (h.eq_of_child hk hchild)
      | @tail p c _ hk ih =>
          obtain ⟨hother, hself⟩ := ih
          by_cases hp : p = child
          · subst hp
            have hc : c ≠ p := by
              rintro rfl
              exact h.not_mem_children_self c hk
            have hhanded := hmem.2 (.inl ⟨rfl, hk⟩)
            refine ⟨fun _ => ?_, fun heq => absurd heq hc⟩
            rcases hself rfl with rfl | hup
            · exact .single hhanded
            · exact hup.tail hhanded
          · constructor
            · intro hc
              exact (hother hp).tail (hmem.2 (.inr ⟨hp, hc, hk⟩))
            · rintro rfl
              obtain rfl := h.eq_of_child hk hchild
              exact .inr (hother hp)
    exact (hway hab).1 hb

/-- The elements from one above the absorbed one down are met again, each
once, without it. -/
theorem descendants_merge_perm (h : tree.IsForest)
    (htarget : target.index < tree.size)
    (hchild : child ∈ tree.childrenOf target) {a : ElementId}
    (ha : a = target ∨ tree.Above a target) :
    ((tree.merge target child).descendants a).Perm
      ((tree.descendants a).erase child) := by
  obtain ⟨hne, hfree⟩ := h.not_above_parent hchild
  have hmerged := h.merge htarget hne hfree
  have hlt : a.index < tree.size := by
    rcases ha with rfl | hup
    · exact htarget
    · exact hup.lt_size
  have ha_ne : a ≠ child := by
    rintro rfl
    exact ha.elim (fun heq => hne heq.symm) hfree
  have hlt' : a.index < (tree.merge target child).size := by
    rw [size_merge]
    exact hlt
  rw [List.perm_ext_iff_of_nodup (hmerged.nodup_descendants hlt')
    ((h.nodup_descendants hlt).erase child)]
  intro d
  rw [(h.nodup_descendants hlt).mem_erase_iff, h.mem_descendants_iff hlt,
    hmerged.mem_descendants_iff hlt', h.above_merge_iff htarget hchild]
  constructor
  · rintro (rfl | ⟨-, hd, had⟩)
    · exact ⟨ha_ne, .inl rfl⟩
    · exact ⟨hd, .inr had⟩
  · rintro ⟨hd, heq | had⟩
    · exact .inl heq
    · exact .inr ⟨ha_ne, hd, had⟩

end IsForest

end ElementTree

-- ===================================================== the whole effect

/-- What an element has after it has absorbed one of its children. -/
structure Element.HasAbsorbed (t c : Element α) (child : ElementId)
    (t' : Element α) : Prop where
  /-- The children that it had, without that one, and then that one's. -/
  children : ∃ before behind, t.children = before ++ child :: behind
    ∧ t'.children = before ++ behind ++ c.children
  /-- Of two values for an attribute that of the child counts. -/
  attributes : ∀ key,
    t'.attribute? key = (c.attribute? key).or (t.attribute? key)
  layer : t'.layer = c.layer
  /-- What was pinned on the child is pinned now, to the same value. -/
  pinned : ∀ property value, c.style.pin? property = some value →
    t'.style.declarations.get? property = some ⟨value, true⟩
  /-- All other declarations stay, pinned or not. -/
  unpinned : ∀ property, c.style.isPinned property = false →
    t'.style.declarations.get? property
      = t.style.declarations.get? property
  selector : t'.style.selector = t.style.selector
  tag : t'.tag = t.tag
  parent : t'.parent? = t.parent?
  siblings : t'.siblings = t.siblings
  detached : t'.detached = t.detached

namespace ElementTree

variable {tree : ElementTree α} {target child : ElementId}

/-- What a tree is after one element has absorbed another, its child. -/
structure HasAbsorbed (tree after : ElementTree α)
    (target child : ElementId) (t c : Element α) : Prop where
  size : after.size = tree.size
  taker : ∃ t', after.get? target = some t' ∧ t.HasAbsorbed c child t'
  /-- The absorbed element keeps nothing of its place and its rule but the
  selector, and everything else. -/
  taken : after.get? child = some
    { c with parent? := none, children := [], detached := true
             style := { selector := c.style.selector } }
  /-- Its children have a new parent. -/
  handed : ∀ k ∈ c.children, ∃ g, tree.get? k = some g
    ∧ after.get? k = some { g with parent? := some target }
  others : ∀ i, i ≠ target → i ≠ child → i ∉ c.children →
    after.get? i = tree.get? i
  isForest : after.IsForest
  /-- From any element above, visits end before and after. -/
  visits : ∀ a, a = target ∨ tree.Above a target →
    tree.Visit [a] (tree.descendants a)
      ∧ after.Visit [a] (after.descendants a)
  /-- The same elements are met, each once, but for the absorbed one. -/
  descendants : ∀ a, a = target ∨ tree.Above a target →
    (tree.descendants a).Nodup ∧ child ∈ tree.descendants a
      ∧ (after.descendants a).Perm ((tree.descendants a).erase child)

/-- The target takes over all that the child has. -/
theorem hasAbsorbed_takeOver {t c : Element α} (hnodup : t.children.Nodup)
    (hmem : child ∈ t.children) :
    t.HasAbsorbed c child
      { t.takeOver c with
        children := t.children.filter (· ≠ child) ++ c.children } := by
  have hdeclared := t.style.declarations_pinAll_pinned c.style
  refine ⟨?_, ?_, rfl, ?_, ?_, StyleRule.pinAll_selector .., rfl, rfl, rfl,
    rfl⟩
  · obtain ⟨before, behind, hsplit⟩ := List.append_of_mem hmem
    refine ⟨before, behind, hsplit, ?_⟩
    rw [hsplit] at hnodup ⊢
    obtain ⟨-, hbehind, hapart⟩ := List.nodup_append.1 hnodup
    have hfront : before.filter (· ≠ child) = before := by
      rw [List.filter_eq_self]
      intro k hk
      exact decide_eq_true (hapart k hk child List.mem_cons_self)
    have hback : behind.filter (· ≠ child) = behind := by
      rw [List.filter_eq_self]
      intro k hk
      apply decide_eq_true
      rintro rfl
      exact (List.nodup_cons.1 hbehind).1 hk
    show (before ++ child :: behind).filter (· ≠ child) ++ c.children = _
    rw [List.filter_append, List.filter_cons_of_neg (by simp), hfront, hback]
  · exact fun key => SortedMap.get?_overlay ..
  · intro property value hpin
    show (t.style.pinAll c.style.pinned).declarations.get? property = _
    rw [hdeclared, hpin]
    rfl
  · intro property hfree
    show (t.style.pinAll c.style.pinned).declarations.get? property = _
    rw [hdeclared, StyleRule.pin?_eq_none_iff.2 hfree]
    rfl

/-- An element of a forest absorbs its child: nothing of what that had is
lost, nothing is there twice, and nothing else changes. -/
theorem merge_absorbs (h : tree.IsForest)
    (hchild : child ∈ tree.childrenOf target) :
    ∃ t c, tree.get? target = some t ∧ tree.get? child = some c
      ∧ tree.HasAbsorbed (tree.merge target child) target child t c := by
  obtain ⟨hne, hfree⟩ := h.not_above_parent hchild
  obtain ⟨t, ht, hmem⟩ := exists_get?_of_mem_childrenOf hchild
  obtain ⟨c, hc, hparent⟩ :=
    Option.bind_eq_some_iff.1 (h.parent_of_child target child hchild)
  have hchildren : tree.childrenOf child = c.children :=
    childrenOf_of_get? hc
  have htarget : target.index < tree.size := get?_isSome_iff.1 ⟨t, ht⟩
  have hbelow : target ∉ c.children := by
    rw [← hchildren]
    exact fun hk => hfree (.single hk)
  have hself : child ∉ c.children := by
    rw [← hchildren]
    exact h.not_mem_children_self child
  have hget := get?_merge hc hparent hne hbelow hself
  have hmerged := h.merge htarget hne hfree
  -- whoever is above the target is in the tree
  have hlt : ∀ {a}, a = target ∨ tree.Above a target →
      a.index < tree.size := by
    rintro a (rfl | hup)
    · exact htarget
    · exact hup.lt_size
  refine ⟨t, c, ht, hc, size_merge .., ?_, ?_, ?_, ?_, hmerged, ?_, ?_⟩
  · refine ⟨_, ?_, hasAbsorbed_takeOver ?_ hmem⟩
    · rw [hget, if_neg hne, if_pos rfl, ht]
      rfl
    · rw [← childrenOf_of_get? ht]
      exact h.children_nodup target
  · rw [hget, if_pos rfl]
    rfl
  · intro k hk
    obtain ⟨g, hg⟩ :=
      get?_isSome_iff.2 (h.child_lt (hchildren.symm ▸ hk))
    have hk_ne : k ≠ child := fun heq => hself (heq ▸ hk)
    have hk_target : k ≠ target := fun heq => hbelow (heq ▸ hk)
    refine ⟨g, hg, ?_⟩
    rw [hget, if_neg hk_ne, if_neg hk_target, if_pos hk, hg]
    rfl
  · intro i hi_target hi_child hi
    rw [hget, if_neg hi_child, if_neg hi_target, if_neg hi]
  · intro a ha
    refine ⟨h.visit (hlt ha), hmerged.visit ?_⟩
    rw [size_merge]
    exact hlt ha
  · intro a ha
    refine ⟨h.nodup_descendants (hlt ha), ?_,
      h.descendants_merge_perm htarget hchild ha⟩
    rw [h.mem_descendants_iff (hlt ha)]
    exact .inr ((h.above_child_iff hchild).2 ha)

/-- The body of the sample page absorbs the logo, which has two children
and two pins of its own. -/
theorem samplePage_merge_absorbs :
    ∃ built, BuiltTree.build Metadata.builtin samplePage = .ok built
      ∧ built.tree.IsForest ∧ ⟨1⟩ ∈ built.tree.childrenOf ⟨0⟩
      ∧ (built.tree.merge ⟨0⟩ ⟨1⟩).childrenOf ⟨0⟩ = [⟨6⟩, ⟨3⟩, ⟨4⟩]
      ∧ ∃ t c, built.tree.get? ⟨0⟩ = some t ∧ built.tree.get? ⟨1⟩ = some c
        ∧ built.tree.HasAbsorbed (built.tree.merge ⟨0⟩ ⟨1⟩) ⟨0⟩ ⟨1⟩
          t c := by
  have hrun : (BuiltTree.build Metadata.builtin samplePage).toOption.map
      (fun built => (built.tree.childrenOf ⟨0⟩,
        (built.tree.merge ⟨0⟩ ⟨1⟩).childrenOf ⟨0⟩))
      = some ([⟨1⟩, ⟨6⟩], [⟨6⟩, ⟨3⟩, ⟨4⟩]) := by
    decide +kernel
  obtain ⟨built, hbuild⟩ : ∃ built,
    BuiltTree.build Metadata.builtin samplePage = .ok built := ⟨_, rfl⟩
  rw [hbuild] at hrun
  obtain ⟨hbefore, hafter⟩ := Prod.mk.inj (Option.some.inj hrun)
  have hforest :=
    (build_wellFormed Metadata.decorates_builtin hbuild).2.isForest
  have hchild : ⟨1⟩ ∈ built.tree.childrenOf ⟨0⟩ := by
    rw [hbefore]
    decide
  exact ⟨built, hbuild, hforest, hchild, hafter,
    merge_absorbs hforest hchild⟩

end ElementTree

end LayerPage
