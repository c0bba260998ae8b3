/-
Flow: the children of an element from top to bottom, level ones from
left to right. Every child of a well-formed tree sees the same flow,
that of its parent; in it, being after and being before are one relation
read in two directions, and level children stand next to each other.
-/
import LayerPage.Proofs.Element.WellFormed

namespace LayerPage.ElementTree

-- ========================================================== neighbours

section

variable {β : Type} [DecidableEq β]

/-- What stands after an item is its right neighbour. -/
theorem after?_eq_some_iff {l : List β} (hnodup : l.Nodup) {x y : β} :
    after? x l = some y ↔ [x, y] <:+: l := by
  induction l with
  | nil => simp [after?]
  | cons a rest ih =>
      obtain ⟨hfresh, hrest⟩ := List.nodup_cons.1 hnodup
      cases rest with
      | nil => simp [after?, List.infix_cons_iff]
      | cons b rest =>
          rw [after?, List.infix_cons_iff]
          by_cases ha : a = x
          · subst ha
            rw [if_pos rfl]
            constructor
            · intro hb
              cases hb
              exact Or.inl ⟨rest, rfl⟩
            · rintro (⟨_, hsplit⟩ | hlater)
              · cases hsplit
                rfl
              · exact absurd (hlater.subset List.mem_cons_self) hfresh
          · rw [if_neg ha, ih hrest]
            constructor
            · exact Or.inr
            · rintro (⟨_, hsplit⟩ | hlater)
              · cases hsplit
                exact absurd rfl ha
              · exact hlater

/-- What stands before an item is its left neighbour. -/
theorem before?_eq_some_iff {l : List β} (hnodup : l.Nodup) {x y : β} :
    before? x l = some y ↔ [y, x] <:+: l := by
  have hmem : ∀ {other : List β}, [y, x] <:+: other → x ∈ other := fun h =>
    h.subset (List.mem_cons_of_mem _ List.mem_cons_self)
  induction l with
  | nil => simp [before?]
  | cons a rest ih =>
      obtain ⟨hfresh, hrest⟩ := List.nodup_cons.1 hnodup
      cases rest with
      | nil => simp [before?, List.infix_cons_iff]
      | cons b rest =>
          rw [before?, List.infix_cons_iff]
          -- the item is the first one, the second one, or further on
          by_cases ha : a = x
          · subst ha
            rw [if_pos rfl]
            constructor
            · intro hnone
              cases hnone
            · rintro (⟨_, hsplit⟩ | hlater)
              · cases hsplit
                exact absurd List.mem_cons_self hfresh
              · exact absurd (hmem hlater) hfresh
          · rw [if_neg ha]
            by_cases hb : b = x
            · subst hb
              rw [if_pos rfl]
              constructor
              · intro hy
                cases hy
                exact Or.inl ⟨rest, rfl⟩
              · rintro (⟨_, hsplit⟩ | hlater)
                · cases hsplit
                  rfl
                · have hfresh' := (List.nodup_cons.1 hrest).1
                  rcases List.infix_cons_iff.1 hlater with ⟨_, hsplit⟩ | hlater
                  · cases hsplit
                    exact absurd List.mem_cons_self hfresh'
                  · exact absurd (hmem hlater) hfresh'
            · rw [if_neg hb]
              refine (ih hrest).trans ?_
              constructor
              · exact Or.inr
              · rintro (⟨_, hsplit⟩ | hlater)
                · cases hsplit
                  exact absurd rfl hb
                · exact hlater

/-- Nothing stands before the first item alone. -/
theorem before?_eq_none_iff {l : List β} {x : β} (hx : x ∈ l) :
    before? x l = none ↔ l.head? = some x := by
  induction l with
  | nil => cases hx
  | cons a rest ih =>
      by_cases ha : a = x
      · subst ha
        cases rest with
        | nil => simp [before?]
        | cons b rest => simp [before?]
      · have hrest : x ∈ rest := by
          rcases List.mem_cons.1 hx with rfl | hx
          · exact absurd rfl ha
          · exact hx
        cases rest with
        | nil => cases hrest
        | cons b rest =>
            rw [before?, if_neg ha]
            by_cases hb : b = x
            · simp [hb, ha]
            · rw [if_neg hb, ih hrest]
              simp [ha, hb]

end

/-- What stands at some position and at the next one are neighbours. -/
theorem pair_infix {β : Type} {l : List β} {i : Nat}
    (hi : i + 1 < l.length) : [l[i], l[i + 1]] <:+: l := by
  refine ⟨l.take i, l.drop (i + 1 + 1), ?_⟩
  have hdrop : l.drop i = l[i] :: l[i + 1] :: l.drop (i + 1 + 1) := by
    rw [List.drop_eq_getElem_cons (Nat.lt_of_succ_lt hi),
      List.drop_eq_getElem_cons hi]
  calc l.take i ++ [l[i], l[i + 1]] ++ l.drop (i + 1 + 1)
      = l.take i ++ l.drop i := by
        rw [hdrop, List.append_assoc]
        rfl
    _ = l := List.take_append_drop i l

/-- In a list sorted by a key, an item shares its key with another one
exactly if it shares it with a neighbour. -/
theorem exists_same_key_iff {β : Type} (key : β → Int) {l : List β}
    (hsorted : l.Pairwise (key · ≤ key ·)) (hnodup : l.Nodup) {x : β}
    (hx : x ∈ l) :
    (∃ y ∈ l, y ≠ x ∧ key y = key x)
      ↔ (∃ y, [x, y] <:+: l ∧ key y = key x)
        ∨ ∃ y, [y, x] <:+: l ∧ key y = key x := by
  obtain ⟨before, after, rfl⟩ := List.append_of_mem hx
  obtain ⟨hbefore, hxafter, hcross⟩ := List.pairwise_append.1 hsorted
  obtain ⟨hafterx, hafter⟩ := List.pairwise_cons.1 hxafter
  constructor
  · rintro ⟨y, hy, hne, hkey⟩
    rcases List.mem_append.1 hy with hy | hy
    · -- the left neighbour lies between the two
      right
      obtain ⟨start, z, rfl⟩ : ∃ start z, before = start ++ [z] := by
        have hpos : before ≠ [] := List.ne_nil_of_mem hy
        exact ⟨_, _, (List.dropLast_concat_getLast hpos).symm⟩
      have hzx : key z ≤ key x :=
        hcross z (List.mem_append_right _ List.mem_cons_self) x
          List.mem_cons_self
      have hyz : key y ≤ key z := by
        rcases List.mem_append.1 hy with hy | hy
        · exact (List.pairwise_append.1 hbefore).2.2 y hy z
            List.mem_cons_self
        · cases List.mem_singleton.1 hy
          exact Int.le_refl _
      exact ⟨z, ⟨start, after, by simp⟩, by omega⟩
    · rcases List.mem_cons.1 hy with rfl | hy
      · exact absurd rfl hne
      · -- and the right one, if it comes after
        left
        cases after with
        | nil => cases hy
        | cons z rest =>
            have hxz : key x ≤ key z := hafterx z List.mem_cons_self
            have hzy : key z ≤ key y := by
              rcases List.mem_cons.1 hy with rfl | hy
              · exact Int.le_refl _
              · exact (List.pairwise_cons.1 hafter).1 y hy
            exact ⟨z, ⟨before, rest, by simp⟩, by omega⟩
  · have hdistinct : ∀ {a b : β}, [a, b] <:+: before ++ x :: after →
        a ≠ b := by
      rintro a b hinfix rfl
      have := hinfix.sublist.nodup hnodup
      simp at this
    rintro (⟨y, hinfix, hkey⟩ | ⟨y, hinfix, hkey⟩)
    · exact ⟨y, hinfix.subset (List.mem_cons_of_mem _ List.mem_cons_self),
        (hdistinct hinfix).symm, hkey⟩
    · exact ⟨y, hinfix.subset List.mem_cons_self, hdistinct hinfix, hkey⟩

-- ================================================================= flow

variable {α : Type} [Layer α]

/-- The children of an element in flow order. -/
def flow (tree : ElementTree α) (parent : ElementId) : List ElementId :=
  (tree.childrenOf parent).mergeSort
    fun a b => flowLe (tree.boundsAt a) (tree.boundsAt b)

/-- The flow of an element has its children in it, and no others. -/
theorem mem_flow {tree : ElementTree α} {parent id : ElementId} :
    id ∈ tree.flow parent ↔ id ∈ tree.childrenOf parent :=
  (List.mergeSort_perm ..).mem_iff

/-- The order of flow is transitive. -/
theorem flowLe_trans {a b c : Bounds} (hab : flowLe a b = true)
    (hbc : flowLe b c = true) : flowLe a c = true := by
  simp only [flowLe, Bool.or_eq_true, Bool.and_eq_true, decide_eq_true_eq,
    beq_iff_eq] at hab hbc ⊢
  omega

/-- Any two places are in order, one way or the other. -/
theorem flowLe_total (a b : Bounds) : (flowLe a b || flowLe b a) = true := by
  simp only [flowLe, Bool.or_eq_true, Bool.and_eq_true, decide_eq_true_eq,
    beq_iff_eq]
  omega

/-- Sorting the children puts them in order. -/
theorem flow_flowLe (tree : ElementTree α) (parent : ElementId) :
    (tree.flow parent).Pairwise fun a b =>
      flowLe (tree.boundsAt a) (tree.boundsAt b) = true := by
  apply List.pairwise_mergeSort
  · intro a b c hab hbc
    exact flowLe_trans hab hbc
  · intro a b
    exact flowLe_total _ _

/-- Flow runs from top to bottom. -/
theorem flow_top_le (tree : ElementTree α) (parent : ElementId) :
    (tree.flow parent).Pairwise fun a b =>
      (tree.boundsAt a).top ≤ (tree.boundsAt b).top := by
  refine (tree.flow_flowLe parent).imp ?_
  intro a b hle
  simp only [flowLe, Bool.or_eq_true, Bool.and_eq_true, decide_eq_true_eq,
    beq_iff_eq] at hle
  omega

-- ============================================================== parents

/-- Whether the layer behind an element is a normal one. -/
def isNormal (tree : ElementTree α) (id : ElementId) : Bool :=
  (tree.get? id).any fun e => Layer.kind e.layer == .normal

/-- The parent of an element, if the layer behind it is a normal one. -/
def normalParent? (tree : ElementTree α) (id : ElementId) :
    Option ElementId :=
  (tree.parentId? id).filter tree.isNormal

/-- Two ways to say that the layer of the parent is a normal one. -/
theorem parentKind?_eq_normal_iff {tree : ElementTree α} {id : ElementId} :
    tree.parentKind? id = some .normal
      ↔ ∃ p, tree.normalParent? id = some p := by
  unfold parentKind? parent? normalParent? isNormal
  show (Option.map _ ((tree.parentId? id).bind tree.get?)) = _ ↔ _
  cases tree.parentId? id with
  | none => simp
  | some p =>
      rw [Option.bind_some, Option.filter_some]
      cases tree.get? p with
      | none => simp
      | some e => simp

/-- A normal parent is a parent. -/
theorem parentId?_of_normalParent? {tree : ElementTree α}
    {id p : ElementId} (h : tree.normalParent? id = some p) :
    tree.parentId? id = some p :=
  (Option.filter_eq_some_iff.1 h).1

/-- Siblings have the same normal parent, if any. -/
theorem normalParent?_congr {tree : ElementTree α} {id i : ElementId}
    (h : tree.parentId? i = tree.parentId? id) :
    tree.normalParent? i = tree.normalParent? id := by
  unfold normalParent?
  rw [h]

namespace WellFormed

variable {tree : ElementTree α} {root : ElementId}

/-- The flow of an element is made of the elements that name it as their
parent. -/
theorem mem_flow_iff (h : tree.WellFormed root) {id p : ElementId} :
    id ∈ tree.flow p ↔ tree.parentId? id = some p := by
  rw [mem_flow]
  constructor
  · intro hmem
    cases hget : tree.get? p with
    | none =>
        unfold childrenOf at hmem
        rw [hget] at hmem
        cases hmem
    | some ep =>
        rw [childrenOf_of_get? hget] at hmem
        obtain ⟨e, hgetid, hparent, -⟩ := h.child hget hmem
        exact Option.bind_eq_some_iff.2 ⟨e, hgetid, hparent⟩
  · intro hparent
    obtain ⟨e, hget, hp⟩ := Option.bind_eq_some_iff.1 hparent
    obtain ⟨ep, hgetp, hmem, -⟩ := h.parent hget hp
    rw [childrenOf_of_get? hgetp]
    exact hmem

/-- The children of a normal element have it for their normal parent. -/
theorem normalParent?_of_mem_flow (h : tree.WellFormed root)
    {id p : ElementId} (hp : tree.isNormal p = true)
    (hid : id ∈ tree.flow p) : tree.normalParent? id = some p := by
  unfold normalParent?
  rw [h.mem_flow_iff.1 hid]
  exact Option.filter_some_pos hp

/-- No child is in the flow twice. -/
theorem flow_nodup (h : tree.WellFormed root) (p : ElementId) :
    (tree.flow p).Nodup := by
  refine (List.mergeSort_perm ..).nodup_iff.2 ?_
  unfold childrenOf
  cases hget : tree.get? p with
  | none => exact List.nodup_nil
  | some e => exact h.children_nodup hget

/-- Each child sees the flow of its parent. -/
theorem flowOrder_eq (h : tree.WellFormed root) {id p : ElementId}
    (hparent : tree.parentId? id = some p) :
    tree.flowOrder id = tree.flow p := by
  obtain ⟨e, hget, hp⟩ := Option.bind_eq_some_iff.1 hparent
  obtain ⟨ep, hgetp, -, hsiblings, -⟩ := h.parent hget hp
  unfold flowOrder flow
  rw [hget, childrenOf_of_get? hgetp, Option.map_some, Option.getD_some,
    hsiblings]

/-- What comes next in flow is the right neighbour there. -/
theorem nextInFlow?_eq_some_iff (h : tree.WellFormed root)
    {id i p : ElementId} (hparent : tree.parentId? id = some p) :
    tree.nextInFlow? id = some i ↔ [id, i] <:+: tree.flow p := by
  unfold nextInFlow?
  rw [h.flowOrder_eq hparent]
  exact after?_eq_some_iff (h.flow_nodup p)

theorem prevInFlow?_eq_some_iff (h : tree.WellFormed root)
    {id i p : ElementId} (hparent : tree.parentId? id = some p) :
    tree.prevInFlow? id = some i ↔ [i, id] <:+: tree.flow p := by
  unfold prevInFlow?
  rw [h.flowOrder_eq hparent]
  exact before?_eq_some_iff (h.flow_nodup p)

/-- Nothing comes before the first child alone. -/
theorem prevInFlow?_eq_none_iff (h : tree.WellFormed root)
    {id p : ElementId} (hparent : tree.parentId? id = some p) :
    tree.prevInFlow? id = none ↔ (tree.flow p).head? = some id := by
  unfold prevInFlow?
  rw [h.flowOrder_eq hparent]
  exact before?_eq_none_iff (h.mem_flow_iff.2 hparent)

/-- An element comes after another one exactly if that comes before it,
and then they have the same parent. -/
theorem nextInFlow?_iff_prevInFlow? (h : tree.WellFormed root)
    {id i p : ElementId} (hparent : tree.parentId? id = some p) :
    tree.nextInFlow? id = some i
      ↔ tree.parentId? i = some p ∧ tree.prevInFlow? i = some id := by
  rw [h.nextInFlow?_eq_some_iff hparent]
  constructor
  · intro hinfix
    have hi : tree.parentId? i = some p := by
      rw [← h.mem_flow_iff]
      exact hinfix.subset (List.mem_cons_of_mem _ List.mem_cons_self)
    exact ⟨hi, (h.prevInFlow?_eq_some_iff hi).2 hinfix⟩
  · rintro ⟨hi, hprev⟩
    exact (h.prevInFlow?_eq_some_iff hi).1 hprev

theorem parentId?_of_prevInFlow? (h : tree.WellFormed root)
    {id i p : ElementId} (hparent : tree.parentId? id = some p)
    (hprev : tree.prevInFlow? id = some i) :
    tree.parentId? i = some p := by
  rw [h.prevInFlow?_eq_some_iff hparent] at hprev
  exact h.mem_flow_iff.1 (hprev.subset List.mem_cons_self)

end WellFormed

end LayerPage.ElementTree
