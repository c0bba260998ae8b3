/-
Layout in any order. Every visit writes to the rules of an element, of its
parent and of its next peer, and still it makes no difference in which
order the elements are visited, as long as parents come before their
children (`layout_order_irrelevant`).

# Why

A run is the list of its inferences (`run_eq_carryOut`), and of a list of
inferences only the last one for each property counts (`carryOut_congr`).
So it is enough that two orders have the same last word on every property
(`latest?_run_congr`). For all properties but one that is the value that
geometry gives, which knows no order. The height is inferred twice, by
the element itself and by its first child, and it is there that parents
have to come first: the last word is then the child's in either order.

What an element declares before layout does not matter, pinned or not.
The height that a first child reads back at its parent is the one that
layout counts on, whichever order it runs in: that is what `HeightKnown`
says.
-/
import LayerPage.Proofs.Selector

namespace LayerPage

variable {α : Type}

-- ============================================================ same rules

/-- A rule is known from its selector, its pins, and the values of what is
not pinned. -/
theorem StyleRule.eq_of_pin? {r r' : StyleRule}
    (hselector : r.selector = r'.selector)
    (hpins : ∀ k, r.pin? k = r'.pin? k)
    (hvalues : ∀ k, r.isPinned k = false → r.get? k = r'.get? k) :
    r = r' := by
  apply StyleRule.ext_get? hselector
  intro k
  cases hpin : r.pin? k with
  | some value =>
      have hpin' := (hpins k).symm.trans hpin
      rw [StyleRule.pin?_eq_some_iff] at hpin hpin'
      rw [hpin, hpin']
  | none =>
      have hpin' := (hpins k).symm.trans hpin
      rw [StyleRule.pin?_eq_none_iff] at hpin hpin'
      have hvalue := hvalues k hpin
      unfold StyleRule.get? at hvalue
      unfold StyleRule.isPinned at hpin hpin'
      cases hd : r.declarations.get? k with
      | none =>
          rw [hd, Option.map_none] at hvalue
          exact (Option.map_eq_none_iff.1 hvalue.symm).symm
      | some d =>
          rw [hd, Option.map_some] at hvalue
          obtain ⟨d', hd', hsame⟩ := Option.map_eq_some_iff.1 hvalue.symm
          rw [hd, Option.any_some] at hpin
          rw [hd', Option.any_some] at hpin'
          rw [hd']
          obtain ⟨value, pinned⟩ := d
          obtain ⟨value', pinned'⟩ := d'
          cases hsame
          cases hpin
          cases hpin'
          rfl

namespace ElementTree

/-- Two restyled copies of a tree are the same if they have the same
selectors, and the same values where nothing is pinned. -/
theorem Restyled.eq_of_values {t t₁ t₂ : ElementTree α}
    (h₁ : t.Restyled t₁) (h₂ : t.Restyled t₂)
    (hselector : ∀ id, t₁.selector? id = t₂.selector? id)
    (hvalue : ∀ id k, id.index < t.size → t.isPinned id k = false →
      t₁.valueOf? id k = t₂.valueOf? id k) : t₁ = t₂ := by
  apply ext_get?
  intro id
  cases hget : t.get? id with
  | none =>
      have hlarge := get?_eq_none_iff.1 hget
      rw [get?_eq_none_iff.2 (h₁.size ▸ hlarge),
        get?_eq_none_iff.2 (h₂.size ▸ hlarge)]
  | some e =>
      obtain ⟨e₁, hget₁, hstep₁⟩ := h₁.get? hget
      obtain ⟨e₂, hget₂, hstep₂⟩ := h₂.get? hget
      have hlt := get?_isSome_iff.1 ⟨e, hget⟩
      have hrule : e₁.style = e₂.style := by
        apply StyleRule.eq_of_pin?
        · have hsame := hselector id
          rw [selector?, selector?, hget₁, hget₂] at hsame
          exact Option.some.inj hsame
        · intro k
          rw [hstep₁.pins, hstep₂.pins]
        · intro k hfree
          rw [hstep₁.isPinned] at hfree
          have hpinned : t.isPinned id k = false := by
            rw [ElementTree.isPinned, hget]
            exact hfree
          have hsame := hvalue id k hlt hpinned
          rw [valueOf?, valueOf?, hget₁, hget₂] at hsame
          exact hsame
      rw [hget₁, hget₂, hstep₁.rule_only, hstep₂.rule_only, hrule]

end ElementTree

namespace Layout

/-- Of several inferences only the last one for each property counts. -/
theorem carryOut_congr {tree : ElementTree α} {writes writes' : List Write}
    (h : ∀ id k, latest? writes id k = latest? writes' id k) :
    carryOut tree writes = carryOut tree writes' := by
  refine (restyled_carryOut tree writes).eq_of_values
    (restyled_carryOut tree writes') ?_ ?_
  · intro id
    rw [ElementTree.selector?_carryOut, ElementTree.selector?_carryOut]
  · intro id k hid hfree
    rw [valueOf?_carryOut hid hfree, valueOf?_carryOut hid hfree, h]

-- ============================================================== orders

/-- An ordering of the attached elements: each of them is in it once, and
none stands before its parent. -/
structure Ordering (tree : ElementTree α) (ids : List ElementId) :
    Prop where
  perm : ids.Perm tree.attached
  parents_first : ids.Pairwise fun earlier later =>
    tree.parentId? earlier ≠ some later

instance (tree : ElementTree α) (ids : List ElementId) :
    Decidable (Ordering tree ids) :=
  decidable_of_iff (ids.Perm tree.attached ∧ ids.Pairwise fun earlier later =>
      tree.parentId? earlier ≠ some later)
    ⟨fun h => ⟨h.1, h.2⟩, fun h => ⟨h.perm, h.parents_first⟩⟩

namespace Ordering

variable {tree : ElementTree α} {root : ElementId} {ids : List ElementId}

/-- An ordering of a tree holds the attached elements and no others. -/
theorem mem_iff (h : Ordering tree ids) {id : ElementId} :
    id ∈ ids ↔ tree.isAttached id = true := by
  rw [h.perm.mem_iff, ElementTree.mem_attached_iff,
    ElementTree.isAttached_iff]

/-- What does not stand behind an element stands before it. -/
theorem visitOrder (hwell : tree.WellFormed root) (h : Ordering tree ids) :
    VisitOrder tree ids where
  nodup :=
    h.perm.nodup_iff.2 (ElementId.nodup_of_ascending tree.attached_ascending)
  complete _ hid := h.mem_iff.2 hid
  parents_first := by
    intro before id after hsplit p hp
    have hmem := h.mem_iff.2 (hwell.isAttached_of_parentId? hp).2
    have hfirst := h.parents_first
    rw [hsplit] at hmem hfirst
    rcases List.mem_append.1 hmem with hbefore | hbehind
    · exact hbefore
    · exfalso
      rcases List.mem_cons.1 hbehind with hself | hafter
      · have hlt := hwell.parentId?_lt hp
        rw [hself] at hlt
        exact Nat.lt_irrefl _ hlt
      · obtain ⟨-, hlater, -⟩ := List.pairwise_append.1 hfirst
        exact (List.pairwise_cons.1 hlater).1 p hafter hp

end Ordering

-- ================================================================ runs

variable [Layer α] {tree : ElementTree α} {root : ElementId}
  {ids ids' : List ElementId}

/-- Nothing is inferred for an element that is not attached. -/
theorem latest?_run_of_not_attached (hwell : tree.WellFormed root)
    (h : Ordering tree ids) {id : ElementId}
    (hid : tree.isAttached id = false) (k : String) :
    latest? (ids.flatMap (visitWrites tree)) id k = none := by
  unfold latest?
  rw [Option.map_eq_none_iff, List.find?_eq_none]
  intro w hw
  obtain ⟨u, hu, hvisit⟩ := List.mem_flatMap.1 (List.mem_reverse.1 hw)
  have htarget := isAttached_of_mem_visitWrites hwell (h.mem_iff.1 hu) hvisit
  rw [decide_eq_true_eq]
  intro hboth
  rw [hboth.1, hid] at htarget
  cases htarget

/-- The last word on a property is the same in every order. -/
theorem latest?_run_congr (hwell : tree.WellFormed root)
    (h : Ordering tree ids) (h' : Ordering tree ids') (id : ElementId)
    (k : String) :
    latest? (ids.flatMap (visitWrites tree)) id k
      = latest? (ids'.flatMap (visitWrites tree)) id k := by
  cases hid : tree.isAttached id with
  | false =>
      rw [latest?_run_of_not_attached hwell h hid,
        latest?_run_of_not_attached hwell h' hid]
  | true =>
      have hmem := h.mem_iff.2 hid
      have hmem' := h'.mem_iff.2 hid
      by_cases hheight : k = "height"
      · rw [hheight,
          latest?_run_spokenHeight hwell (h.visitOrder hwell) hmem,
          latest?_run_spokenHeight hwell (h'.visitOrder hwell) hmem']
      · rw [latest?_run_of_ne hwell (h.visitOrder hwell) hmem hheight,
          latest?_run_of_ne hwell (h'.visitOrder hwell) hmem' hheight]

/-- Layout gives the same tree in every order. -/
theorem run_eq_run (hwell : tree.WellFormed root) (h : Ordering tree ids)
    (h' : Ordering tree ids') :
    ids.foldl inferStyle tree = ids'.foldl inferStyle tree := by
  rw [run_eq_carryOut hwell (h.visitOrder hwell),
    run_eq_carryOut hwell (h'.visitOrder hwell)]
  exact carryOut_congr (latest?_run_congr hwell h h')

end Layout

-- ========================================================= built trees

variable [Layer α]

/-- Layout of a built tree, whatever its handlers set: along any two
orderings of the attached elements that have parents before their children
it gives the same tree. -/
theorem layout_order_irrelevant {registry : MetadataRegistry α}
    (hreg : Metadata.Decorates registry) {root : α} {built : BuiltTree α}
    (h : BuiltTree.build registry root = .ok built)
    {ids ids' : List ElementId} (hids : Layout.Ordering built.tree ids)
    (hids' : Layout.Ordering built.tree ids') :
    ids.foldl Layout.inferStyle built.tree
      = ids'.foldl Layout.inferStyle built.tree := by
  obtain ⟨below, -, hbuilt⟩ := Construction.builtFrom hreg h
  exact Layout.run_eq_run (hbuilt.wellFormed hreg) hids hids'

/-- The sample page, from the top in the order of creation, and from its
last child backwards. -/
theorem samplePage_order_irrelevant :
    ∃ built, BuiltTree.build Metadata.builtin samplePage = .ok built
      ∧ Layout.Ordering built.tree [⟨0⟩, ⟨1⟩, ⟨3⟩, ⟨4⟩, ⟨6⟩]
      ∧ Layout.Ordering built.tree [⟨0⟩, ⟨6⟩, ⟨1⟩, ⟨4⟩, ⟨3⟩]
      ∧ [⟨0⟩, ⟨1⟩, ⟨3⟩, ⟨4⟩, ⟨6⟩].foldl Layout.inferStyle built.tree
        = [⟨0⟩, ⟨6⟩, ⟨1⟩, ⟨4⟩, ⟨3⟩].foldl Layout.inferStyle built.tree := by
  obtain ⟨built, hbuild⟩ : ∃ built,
    BuiltTree.build Metadata.builtin samplePage = .ok built := ⟨_, rfl⟩
  have hrun : (BuiltTree.build Metadata.builtin samplePage).toOption.map
      (fun built =>
        (decide (Layout.Ordering built.tree [⟨0⟩, ⟨1⟩, ⟨3⟩, ⟨4⟩, ⟨6⟩]),
          decide (Layout.Ordering built.tree [⟨0⟩, ⟨6⟩, ⟨1⟩, ⟨4⟩, ⟨3⟩])))
      = some (true, true) := by
    decide +kernel
  rw [hbuild] at hrun
  obtain ⟨hfirst, hsecond⟩ := Prod.mk.inj (Option.some.inj hrun)
  have hids := of_decide_eq_true hfirst
  have hids' := of_decide_eq_true hsecond
  exact ⟨built, hbuild, hids, hids', layout_order_irrelevant
    Metadata.decorates_builtin hbuild hids hids'⟩

end LayerPage
