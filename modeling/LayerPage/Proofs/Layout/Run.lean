/-
Running layout over a whole tree, in any order that visits every attached
element once and parents before their children: the run carries out the
inferences of its visits (`run_eq_carryOut`).

# What carries the induction

A visit to a first child reads back the height of its parent. By then the
parent was visited, which wrote its height, and the only other visit that
writes one is that of a first child, which is this one. So the height is
known at every visit that asks for it (`heightKnown_before`).
-/
import LayerPage.Proofs.Layout.Trace

namespace LayerPage.Layout

variable {α : Type}

open Length (px parsePx? saturatingSub)

-- ============================================================== orders

/-- An order of visits: every attached element once, and no element
before its parent. -/
structure VisitOrder (tree : ElementTree α) (ids : List ElementId) :
    Prop where
  nodup : ids.Nodup
  complete : ∀ id, tree.isAttached id = true → id ∈ ids
  parents_first : ∀ before id after, ids = before ++ id :: after →
    ∀ p, tree.parentId? id = some p → p ∈ before

/-- The order of creation is an order of visits. -/
theorem visitOrder_descendants {tree : ElementTree α} {root : ElementId}
    (h : tree.WellFormed root) :
    VisitOrder tree (tree.descendants root) := by
  have hmem : ∀ id, tree.isAttached id = true
      → id ∈ tree.descendants root := by
    intro id hid
    rw [h.descendants_root, ElementTree.mem_attached_iff,
      ← ElementTree.isAttached_iff]
    exact hid
  refine ⟨ElementId.nodup_of_ascending h.ascending, hmem, ?_⟩
  · intro before id after hsplit p hp
    have hlt := h.parentId?_lt hp
    obtain ⟨e, hget, hparent⟩ := Option.bind_eq_some_iff.1 hp
    obtain ⟨ep, hgetp, -, -, hattached, -⟩ := h.parent hget hparent
    have hasc := h.ascending
    have hmemp := hmem p (ElementTree.isAttached_iff.2 ⟨ep, hgetp, hattached⟩)
    rw [hsplit] at hasc hmemp
    obtain ⟨-, hlater, -⟩ := List.pairwise_append.1 hasc
    rcases List.mem_append.1 hmemp with hmemp | hmemp
    · exact hmemp
    · rcases List.mem_cons.1 hmemp with rfl | hmemp
      · exact absurd hlt (Nat.lt_irrefl _)
      · have := (List.pairwise_cons.1 hlater).1 p hmemp
        omega

-- ====================================================== several visits

/-- Where no visit speaks, no run does. -/
theorem latest?_flatMap_eq_none {ids : List ElementId}
    {f : ElementId → List Write} {i : ElementId} {k : String}
    (h : ∀ u ∈ ids, latest? (f u) i k = none) :
    latest? (ids.flatMap f) i k = none := by
  induction ids with
  | nil => rfl
  | cons u rest ih =>
      rw [List.flatMap_cons, latest?_append, h u List.mem_cons_self,
        Option.or_none]
      exact ih fun w hw => h w (List.mem_cons_of_mem _ hw)

/-- Something is inferred in several visits if it is in one of them. -/
theorem isSome_latest?_flatMap_iff {ids : List ElementId}
    {f : ElementId → List Write} {i : ElementId} {k : String} :
    (latest? (ids.flatMap f) i k).isSome = true
      ↔ ∃ u ∈ ids, (latest? (f u) i k).isSome = true := by
  induction ids with
  | nil => simp
  | cons u rest ih =>
      rw [List.flatMap_cons, latest?_append, Option.isSome_or,
        Bool.or_eq_true, ih]
      simp only [List.mem_cons, exists_eq_or_imp]
      exact or_comm

/-- If only one visit says anything about a property, that counts. -/
theorem latest?_flatMap_of_only {ids : List ElementId}
    {f : ElementId → List Write} {i v : ElementId} {k : String}
    (hv : v ∈ ids) (honly : ∀ u ∈ ids, u ≠ v → latest? (f u) i k = none) :
    latest? (ids.flatMap f) i k = latest? (f v) i k := by
  induction ids with
  | nil => cases hv
  | cons u rest ih =>
      have hrest : ∀ w ∈ rest, w ≠ v → latest? (f w) i k = none :=
        fun w hw => honly w (List.mem_cons_of_mem _ hw)
      rw [List.flatMap_cons, latest?_append]
      by_cases hmem : v ∈ rest
      · rw [ih hmem hrest]
        by_cases hu : u = v
        · rw [hu, Option.or_self]
        · rw [honly u List.mem_cons_self hu, Option.or_none]
      · have hnone : latest? (rest.flatMap f) i k = none := by
          apply latest?_flatMap_eq_none
          intro w hw
          apply hrest w hw
          rintro rfl
          exact hmem hw
        rcases List.mem_cons.1 hv with rfl | hv
        · rw [hnone, Option.none_or]
        · exact absurd hv hmem

/-- If the visits that say anything agree, it does not matter which of
them counts. -/
theorem latest?_flatMap_of_agree {ids : List ElementId}
    {f : ElementId → List Write} {i : ElementId} {k v : String}
    (hagree : ∀ u ∈ ids, latest? (f u) i k = none
      ∨ latest? (f u) i k = some v) :
    latest? (ids.flatMap f) i k = none
        ∧ (∀ u ∈ ids, latest? (f u) i k = none)
      ∨ latest? (ids.flatMap f) i k = some v
        ∧ ∃ u ∈ ids, latest? (f u) i k = some v := by
  induction ids with
  | nil => exact Or.inl ⟨rfl, List.forall_mem_nil _⟩
  | cons u rest ih =>
      rw [List.flatMap_cons, latest?_append]
      rcases ih fun w hw => hagree w (List.mem_cons_of_mem _ hw) with
        ⟨hnone, hall⟩ | ⟨hsome, w, hw, hu⟩
      · rw [hnone, Option.none_or]
        rcases hagree u List.mem_cons_self with hu | hu
        · exact Or.inl ⟨hu, List.forall_mem_cons.2 ⟨hu, hall⟩⟩
        · exact Or.inr ⟨hu, u, List.mem_cons_self, hu⟩
      · rw [hsome, Option.some_or]
        exact Or.inr ⟨rfl, w, List.mem_cons_of_mem _ hw, hu⟩

-- ========================================================= one visit

variable [Layer α]

@[simp] theorem latest?_flatMap_toList {β : Type} (o : Option β)
    (f : β → List Write) (i : ElementId) (k : String) :
    latest? (o.toList.flatMap f) i k
      = o.bind fun x => latest? (f x) i k := by
  cases o with
  | none => rfl
  | some x =>
      rw [Option.toList_some, List.flatMap_singleton, Option.bind_some]

section

variable (tree : ElementTree α) (u i : ElementId)

/-- A visit offers a background to its own element alone. -/
theorem latest?_visit_background :
    latest? (visitWrites tree u) i "background"
      = if u = i then (colour? tree u).map (·.toCss) else none := by
  simp [visitWrites, sizeWrites, boxWrites, centreWrites, paddingWrites,
    spacingWrites]

/-- A visit offers a width to its own element, unless that has no
parent. -/
theorem latest?_visit_width :
    latest? (visitWrites tree u) i "width"
      = if u = i then
          if (tree.parentId? u).isSome then
            some (px (tree.boundsAt u).width.toInt) else none
        else none := by
  simp [visitWrites, sizeWrites, boxWrites, centreWrites, paddingWrites,
    spacingWrites]

/-- A visit offers a height to its own element, and a smaller one to the
parent that it pads. The second offer comes later. -/
theorem latest?_visit_height :
    latest? (visitWrites tree u) i "height"
      = ((tree.normalParent? u).bind fun p =>
          if p = i then (offset? tree u p).bind (paddedHeight? tree p)
          else none).or
        (if u = i then
          if (tree.parentId? u).isSome then
            some (px (tree.boundsAt u).height.toInt) else none
        else none) := by
  simp [visitWrites, sizeWrites, boxWrites, centreWrites, paddingWrites,
    spacingWrites]

/-- A visit pads the parent, if that is a normal layer and the element is
the first in it. -/
theorem latest?_visit_paddingTop :
    latest? (visitWrites tree u) i "padding-top"
      = (tree.normalParent? u).bind fun p =>
          if p = i then (offset? tree u p).map px else none := by
  simp [visitWrites, sizeWrites, boxWrites, centreWrites, paddingWrites,
    spacingWrites]

/-- A visit centres its own element. -/
theorem latest?_visit_marginLeft :
    latest? (visitWrites tree u) i "margin-left"
      = (tree.normalParent? u).bind fun p =>
          if u = i then centred? (tree.boundsAt p) (tree.boundsAt u)
          else none := by
  simp [visitWrites, sizeWrites, boxWrites, centreWrites, paddingWrites,
    spacingWrites]

/-- The margin to the next peer in flow comes after that of centring, and
counts. -/
theorem latest?_visit_marginRight :
    latest? (visitWrites tree u) i "margin-right"
      = (tree.normalParent? u).bind fun p =>
          if u = i then ((tree.nextInFlow? u).bind (between? tree u)).or
            (centred? (tree.boundsAt p) (tree.boundsAt u))
          else none := by
  by_cases hu : u = i
  · simp [visitWrites, sizeWrites, boxWrites, centreWrites, paddingWrites,
      spacingWrites, hu]
  · simp [visitWrites, sizeWrites, boxWrites, centreWrites, paddingWrites,
      spacingWrites, hu]

/-- A margin above is given to the next peer. -/
theorem latest?_visit_marginTop :
    latest? (visitWrites tree u) i "margin-top"
      = (tree.normalParent? u).bind fun _ =>
          (tree.nextInFlow? u).bind fun next =>
            if next = i then above? tree u next else none := by
  simp [visitWrites, sizeWrites, boxWrites, centreWrites, paddingWrites,
    spacingWrites]

/-- Both the element and the next peer float, if they are level. -/
theorem latest?_visit_float :
    latest? (visitWrites tree u) i "float"
      = (tree.normalParent? u).bind fun _ =>
          (tree.nextInFlow? u).bind fun next =>
            if u = i ∨ next = i then level? tree u next else none := by
  by_cases hu : u = i
  · simp [visitWrites, sizeWrites, boxWrites, centreWrites, paddingWrites,
      spacingWrites, hu]
    congr 1
    funext p
    congr 1
    funext next
    split
    · exact Option.or_self
    · exact Option.none_or
  · simp [visitWrites, sizeWrites, boxWrites, centreWrites, paddingWrites,
      spacingWrites, hu]

/-- The properties that layout infers. -/
def properties : List String :=
  ["background", "width", "height", "margin-left", "margin-right",
    "margin-top", "padding-top", "float"]

/-- A visit writes to no other property. -/
theorem latest?_visit_of_not_mem {k : String} (hk : k ∉ properties) :
    latest? (visitWrites tree u) i k = none := by
  have hne : ∀ property ∈ properties, ¬property = k := by
    rintro property hmem rfl
    exact hk hmem
  simp only [properties, List.forall_mem_cons] at hne
  simp [visitWrites, sizeWrites, boxWrites, centreWrites, paddingWrites,
    spacingWrites, hne]

end

-- =============================================================== a run

/-- Only the first child in flow writes to the height of its parent. -/
theorem latest?_visit_height_of_later {tree : ElementTree α}
    {u i : ElementId} (hlater : tree.normalParent? u = some i →
      tree.prevInFlow? u ≠ none) :
    latest? (visitWrites tree u) i "height"
      = if u = i then
          if (tree.parentId? u).isSome then
            some (px (tree.boundsAt u).height.toInt) else none
        else none := by
  have hnone : ((tree.normalParent? u).bind fun p =>
      if p = i then (offset? tree u p).bind (paddedHeight? tree p)
      else none) = none := by
    cases hp : tree.normalParent? u with
    | none => rfl
    | some p =>
        rw [Option.bind_some]
        by_cases hpi : p = i
        · subst hpi
          unfold offset?
          rw [if_pos rfl, if_neg fun h => hlater hp h.1]
          rfl
        · rw [if_neg hpi]
  rw [latest?_visit_height, hnone, Option.none_or]

/-- Only one child is the first in flow. -/
theorem eq_of_first {tree : ElementTree α} {root u v p : ElementId}
    (hwell : tree.WellFormed root) (hu : tree.parentId? u = some p)
    (hv : tree.parentId? v = some p) (hfirstu : tree.prevInFlow? u = none)
    (hfirstv : tree.prevInFlow? v = none) : u = v := by
  rw [hwell.prevInFlow?_eq_none_iff hu] at hfirstu
  rw [hwell.prevInFlow?_eq_none_iff hv, hfirstu] at hfirstv
  exact Option.some.inj hfirstv

/-- At the visit to a first child, the height of its parent is known. -/
theorem heightKnown_before {tree : ElementTree α} {root : ElementId}
    (hwell : tree.WellFormed root) {ids : List ElementId}
    (horder : VisitOrder tree ids) {before after : List ElementId}
    {id p : ElementId} (hsplit : ids = before ++ id :: after)
    (hp : tree.normalParent? id = some p)
    (hfirst : tree.prevInFlow? id = none) :
    HeightKnown tree (carryOut tree (before.flatMap (visitWrites tree)))
      p := by
  intro hfree
  have hparent := ElementTree.parentId?_of_normalParent? hp
  have hlt : p.index < tree.size := by
    obtain ⟨e, hget, hpe⟩ := Option.bind_eq_some_iff.1 hparent
    obtain ⟨ep, hgetp, -⟩ := hwell.parent hget hpe
    exact ElementTree.get?_isSome_iff.1 ⟨ep, hgetp⟩
  rw [(restyled_carryOut ..).isPinned] at hfree
  rw [valueOf?_carryOut hlt hfree]
  -- this visit is the only one to a first child, and it is yet to come
  have hfresh : id ∉ before := by
    intro hmem
    have hnodup := horder.nodup
    rw [hsplit] at hnodup
    exact (List.nodup_append.1 hnodup).2.2 id hmem id List.mem_cons_self rfl
  have hown : ∀ u ∈ before, latest? (visitWrites tree u) p "height"
      = if u = p then
          if (tree.parentId? u).isSome then
            some (px (tree.boundsAt u).height.toInt) else none
        else none := by
    intro u hu
    apply latest?_visit_height_of_later
    intro hpu hfirstu
    have huid := eq_of_first hwell
      (ElementTree.parentId?_of_normalParent? hpu) hparent hfirstu hfirst
    subst huid
    exact hfresh hu
  unfold baseHeight?
  cases hq : tree.parentId? p with
  | none =>
      have hnone : latest? (before.flatMap (visitWrites tree)) p "height"
          = none := by
        apply latest?_flatMap_eq_none
        intro u hu
        rw [hown u hu]
        split
        · next heq =>
          subst heq
          rw [hq]
          rfl
        · rfl
      rw [hnone, Option.none_or, if_pos rfl]
  | some q =>
      have hmem := horder.parents_first before id after hsplit p hparent
      have hheight : latest? (before.flatMap (visitWrites tree)) p "height"
          = some (px (tree.boundsAt p).height.toInt) := by
        rw [latest?_flatMap_of_only hmem, hown p hmem, if_pos rfl, hq]
        · rfl
        · intro u hu hne
          rw [hown u hu, if_neg hne]
      rw [hheight, Option.some_or, Option.bind_some, if_neg (by simp),
        Length.parsePx?_px (Length.fitsSigned_toInt _)]

/-- A run carries out the inferences of its visits. -/
theorem run_eq_carryOut {tree : ElementTree α} {root : ElementId}
    (hwell : tree.WellFormed root) {ids : List ElementId}
    (horder : VisitOrder tree ids) :
    ids.foldl inferStyle tree
      = carryOut tree (ids.flatMap (visitWrites tree)) := by
  -- the induction is on the visits that are left
  suffices general : ∀ rest before, ids = before ++ rest →
      rest.foldl inferStyle
          (carryOut tree (before.flatMap (visitWrites tree)))
        = carryOut tree (ids.flatMap (visitWrites tree)) by
    exact general ids [] rfl
  intro rest
  induction rest with
  | nil =>
      intro before hsplit
      rw [hsplit, List.append_nil]
      rfl
  | cons id rest ih =>
      intro before hsplit
      have hstep := inferStyle_eq_carryOut
        (restyled_carryOut tree (before.flatMap (visitWrites tree)))
        (fun p hp => ?_)
        (fun p hp hfirst => heightKnown_before hwell horder hsplit hp hfirst)
      · rw [List.foldl_cons, hstep, ← carryOut_append]
        have hnext : before.flatMap (visitWrites tree)
              ++ visitWrites tree id
            = (before ++ [id]).flatMap (visitWrites tree) := by
          rw [List.flatMap_append, List.flatMap_singleton]
        rw [hnext]
        apply ih
        rw [hsplit, List.append_assoc]
        rfl
      · rintro rfl
        exact Nat.lt_irrefl _ (hwell.parentId?_lt
          (ElementTree.parentId?_of_normalParent? hp))

end LayerPage.Layout
