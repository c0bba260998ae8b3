/-
What a visit writes, in whatever tree it is made: nothing is asked of the
links between elements, and rules may declare what they like.

- A height that is read back is left with exactly what the padding does not
  take (`valueOf?_boxModel_height`). The subtraction stays within a word,
  but it is cut off only where nothing is left anyway.
- A run of visits carries out inferences and does nothing else
  (`exists_writes_run`), and there are only a few kinds of them
  (`IsInference`). Sizes are written as they are, and every other length is
  a distance that was found to be positive, or is cut off at zero. So if no
  layer has a negative size, no length that is written is negative
  (`IsInference.isMeasure`).

What a visit writes is taken from what it finds in the tree, height
included (`boxModel_eq_offers`), so the induction over a run only has to
know that no visit changes a place or a size.
-/
import LayerPage.Proofs.Layout.Run

namespace LayerPage

variable {α : Type}

/-- Restyling leaves a property as it is where there is no element or the
property is pinned. -/
theorem ElementTree.Restyled.valueOf?_of_fixed {t t' : ElementTree α}
    (h : t.Restyled t') {id : ElementId} {k : String}
    (hfixed : id.index < t.size → t.isPinned id k = true) :
    t'.valueOf? id k = t.valueOf? id k := by
  unfold ElementTree.valueOf?
  cases hget : t.get? id with
  | none =>
      have hnone : t'.get? id = none := by
        rw [get?_eq_none_iff, h.size, ← get?_eq_none_iff]
        exact hget
      rw [hnone]
  | some e =>
      obtain ⟨e', hget', hstep⟩ := h.get? hget
      have hpinned := hfixed (get?_isSome_iff.1 ⟨e, hget⟩)
      rw [ElementTree.isPinned, hget, Option.any_some] at hpinned
      rw [hget', Option.bind_some, Option.bind_some]
      cases hpin : e.style.pin? k with
      | none =>
          rw [StyleRule.pin?_eq_none_iff, hpinned] at hpin
          cases hpin
      | some v =>
          have hpin' := (hstep.pins k).trans hpin
          rw [(StyleRule.get?_of_pin? hpin).1,
            (StyleRule.get?_of_pin? hpin').1]

namespace Layout

open Length (px parsePx?)

variable [Layer α]

-- ==================================================== what is left over

/-- The height that is left at an element when it makes room above a child:
what it declares less the offset of the child, and never less than zero.
There is none if either property is pinned, if no room is made, or if the
element declares no height in pixels. -/
def remainder? (tree : ElementTree α) (id parent : ElementId) :
    Option Int :=
  if tree.isPinned parent "padding-top" = true
      ∨ tree.isPinned parent "height" = true then none
  else
    (offset? tree id parent).bind fun offset =>
      ((tree.valueOf? parent "height").bind parsePx?).map fun height =>
        max (height - offset) 0

/-- Only a positive distance is padded. -/
theorem offset?_pos {tree : ElementTree α} {id parent : ElementId}
    {offset : Int} (h : offset? tree id parent = some offset) :
    0 < offset := by
  unfold offset? at h
  simp only at h
  split at h
  · next hfirst =>
    cases h
    exact hfirst.2
  · cases h

/-- Nothing is left of a height that is fixed. -/
theorem remainder?_of_fixed {tree : ElementTree α} {id parent : ElementId}
    (hfixed : parent.index < tree.size →
      tree.isPinned parent "height" = true) :
    remainder? tree id parent = none := by
  unfold remainder?
  split
  · rfl
  · next hfree =>
    have hnone : tree.valueOf? parent "height" = none := by
      have hout : tree.size ≤ parent.index :=
        Nat.le_of_not_lt fun hlt => hfree (.inr (hfixed hlt))
      rw [ElementTree.valueOf?, ElementTree.get?_eq_none_iff.2 hout]
      rfl
    rw [hnone]
    cases offset? tree id parent with
    | none => rfl
    | some offset => rfl

/-- What is inferred for a height is what is left of it. -/
theorem bind_leftHeight? {tree : ElementTree α} (id : ElementId)
    {parent : ElementId} (hfree : tree.isPinned parent "height" = false) :
    (offset? tree id parent).bind (leftHeight? tree parent
        ((tree.valueOf? parent "height").bind parsePx?))
      = (remainder? tree id parent).map px := by
  unfold remainder? leftHeight?
  rw [hfree]
  cases hpad : tree.isPinned parent "padding-top" with
  | true =>
      rw [if_pos (.inl rfl), Option.map_none]
      cases offset? tree id parent with
      | none => rfl
      | some offset => rfl
  | false =>
      rw [if_neg (by decide)]
      cases hoffset : offset? tree id parent with
      | none => rfl
      | some offset =>
          rw [Option.bind_some, Option.bind_some, if_neg (by decide)]
          cases hheight : (tree.valueOf? parent "height").bind parsePx? with
          | none => rfl
          | some height =>
              obtain ⟨text, -, hread⟩ := Option.bind_eq_some_iff.1 hheight
              have hexact := Length.max_saturatingSub
                (Length.fitsSigned_of_parsePx? hread)
                (Int.le_of_lt (offset?_pos hoffset))
              rw [Option.map_some, Option.map_some, Option.map_some, hexact]

/-- The heights after a visit: only that of the parent changes, and if so,
then to exactly what is left of it. -/
theorem valueOf?_boxModel_height (tree : ElementTree α)
    (id parent i : ElementId) :
    (boxModel tree id parent).valueOf? i "height"
      = if i = parent then
          ((remainder? tree id parent).map px).or
            (tree.valueOf? i "height")
        else tree.valueOf? i "height" := by
  rw [boxModel_eq_offers (.refl tree) fun _ _ => rfl]
  by_cases hfree : i.index < tree.size ∧ tree.isPinned i "height" = false
  · rw [valueOf?_carryOut hfree.1 hfree.2]
    by_cases hi : i = parent
    · subst hi
      have hleft := bind_leftHeight? id hfree.2
      simp [centreWrites, paddingFrom, spacingWrites, hleft]
    · have hi' : parent ≠ i := fun h => hi h.symm
      simp [centreWrites, paddingFrom, spacingWrites, hi, hi']
  · have hfixed : i.index < tree.size → tree.isPinned i "height" = true := by
      intro hlt
      rw [← Bool.not_eq_false]
      exact fun h => hfree ⟨hlt, h⟩
    rw [(restyled_carryOut ..).valueOf?_of_fixed hfixed]
    split
    · next hi =>
      rw [hi] at hfixed ⊢
      rw [remainder?_of_fixed hfixed]
      rfl
    · rfl

-- ========================================================== what is written

/-- What layout writes in a tree: each property with the values it is
given. -/
inductive IsInference (tree : ElementTree α) : Write → Prop
  | colour (id : ElementId) (c : Colour) :
      IsInference tree ⟨id, "background", c.toCss⟩
  | width (id : ElementId) :
      IsInference tree ⟨id, "width", px (tree.boundsAt id).width.toInt⟩
  | height (id : ElementId) :
      IsInference tree ⟨id, "height", px (tree.boundsAt id).height.toInt⟩
  /-- An element that is centred. -/
  | auto (id : ElementId) {property : String}
      (h : property ∈ ["margin-left", "margin-right"]) :
      IsInference tree ⟨id, property, "auto"⟩
  /-- The distance from another element, or what is left of a height. -/
  | distance (id : ElementId) {property : String} {n : Int}
      (h : property ∈ ["padding-top", "height", "margin-top",
        "margin-right"]) (hn : 0 ≤ n) :
      IsInference tree ⟨id, property, px n⟩
  | float (id : ElementId) : IsInference tree ⟨id, "float", "left"⟩

section

variable {tree : ElementTree α} {id parent next : ElementId} {w : Write}

/-- Layout writes to these properties only. -/
theorem IsInference.mem_properties (h : IsInference tree w) :
    w.property ∈ properties := by
  have hmargins : ∀ property ∈ ["margin-left", "margin-right"],
      property ∈ properties := by
    decide
  have hdistances : ∀ property ∈ ["padding-top", "height", "margin-top",
      "margin-right"], property ∈ properties := by
    decide
  cases h with
  | colour id c => simp [properties]
  | width id => simp [properties]
  | height id => simp [properties]
  | auto id hproperty => exact hmargins _ hproperty
  | distance id hproperty _ => exact hdistances _ hproperty
  | float id => simp [properties]

/-- An offer is an inference if each of its values is one. -/
theorem isInference_of_mem_offer {property : String}
    {value? : Option String} (h : w ∈ offer id property value?)
    (hvalue : ∀ value, value? = some value →
      IsInference tree ⟨id, property, value⟩) : IsInference tree w := by
  obtain ⟨value, hsome, rfl⟩ := mem_offer.1 h
  exact hvalue value hsome

/-- A background is inferred from a colour. -/
theorem isInference_of_mem_background
    (h : w ∈ offer id "background" ((colour? tree id).map (·.toCss))) :
    IsInference tree w := by
  refine isInference_of_mem_offer h fun value hvalue => ?_
  obtain ⟨colour, -, rfl⟩ := Option.map_eq_some_iff.1 hvalue
  exact .colour id colour

/-- Sizes are inferred from bounds. -/
theorem isInference_of_mem_sizeWrites (h : w ∈ sizeWrites tree id) :
    IsInference tree w := by
  rcases List.mem_append.1 h with h | h
  · refine isInference_of_mem_offer h fun value hvalue => ?_
    obtain ⟨-, hvalue⟩ := Option.ite_none_right_eq_some.1 hvalue
    cases hvalue
    exact .width id
  · refine isInference_of_mem_offer h fun value hvalue => ?_
    obtain ⟨-, hvalue⟩ := Option.ite_none_right_eq_some.1 hvalue
    cases hvalue
    exact .height id

/-- Centring writes no lengths. -/
theorem isInference_of_mem_centreWrites {outer own : Bounds}
    (h : w ∈ centreWrites id outer own) : IsInference tree w := by
  have hauto : ∀ {property value : String},
      property ∈ ["margin-left", "margin-right"] →
      centred? outer own = some value →
      IsInference tree ⟨id, property, value⟩ := by
    intro property value hproperty hvalue
    obtain ⟨-, hvalue⟩ := Option.ite_none_right_eq_some.1 hvalue
    cases hvalue
    exact .auto id hproperty
  rcases List.mem_append.1 h with h | h
  · exact isInference_of_mem_offer h fun _ => hauto (by decide)
  · exact isInference_of_mem_offer h fun _ => hauto (by decide)

/-- Padding is a positive distance, and what it leaves of a height is cut
off at zero. -/
theorem isInference_of_mem_paddingFrom {height? : Option Int}
    (h : w ∈ paddingFrom tree id parent height?) : IsInference tree w := by
  rcases List.mem_append.1 h with h | h
  · refine isInference_of_mem_offer h fun value hvalue => ?_
    obtain ⟨offset, hoffset, rfl⟩ := Option.map_eq_some_iff.1 hvalue
    exact .distance parent (by decide) (Int.le_of_lt (offset?_pos hoffset))
  · refine isInference_of_mem_offer h fun value hvalue => ?_
    obtain ⟨offset, -, hleft⟩ := Option.bind_eq_some_iff.1 hvalue
    unfold leftHeight? at hleft
    split at hleft
    · cases hleft
    · obtain ⟨height, -, rfl⟩ := Option.map_eq_some_iff.1 hleft
      exact .distance parent (by decide) (Int.le_max_right _ 0)

/-- Margins are positive distances. -/
theorem isInference_of_mem_spacingWrites
    (h : w ∈ spacingWrites tree id next) : IsInference tree w := by
  have hfloat : ∀ {target : ElementId} {value : String},
      level? tree id next = some value →
      IsInference tree ⟨target, "float", value⟩ := by
    intro target value hvalue
    obtain ⟨-, hvalue⟩ := Option.ite_none_right_eq_some.1 hvalue
    cases hvalue
    exact .float target
  unfold spacingWrites at h
  rw [List.mem_append, List.mem_append, List.mem_append] at h
  rcases h with h | h | h | h
  · refine isInference_of_mem_offer h fun value hvalue => ?_
    obtain ⟨hgap, hvalue⟩ := Option.ite_none_right_eq_some.1 hvalue
    cases hvalue
    exact .distance next (by decide) (Int.le_of_lt hgap)
  · exact isInference_of_mem_offer h fun _ => hfloat
  · exact isInference_of_mem_offer h fun _ => hfloat
  · refine isInference_of_mem_offer h fun value hvalue => ?_
    obtain ⟨hgap, hvalue⟩ := Option.ite_none_right_eq_some.1 hvalue
    cases hvalue
    exact .distance id (by decide) (Int.le_of_lt hgap.2)

/-- What a visit writes inside a normal layer, whatever height it finds
there. -/
theorem isInference_of_mem_box {height? : Option Int}
    (h : w ∈ centreWrites id (tree.boundsAt parent) (tree.boundsAt id)
      ++ (paddingFrom tree id parent height?
        ++ (tree.nextInFlow? id).toList.flatMap (spacingWrites tree id))) :
    IsInference tree w := by
  rw [List.mem_append, List.mem_append, List.mem_flatMap] at h
  rcases h with h | h | ⟨next, -, h⟩
  · exact isInference_of_mem_centreWrites h
  · exact isInference_of_mem_paddingFrom h
  · exact isInference_of_mem_spacingWrites h

/-- All that a visit writes is inferred. -/
theorem isInference_of_mem_visitWrites (h : w ∈ visitWrites tree id) :
    IsInference tree w := by
  unfold visitWrites at h
  rw [List.mem_append, List.mem_append, List.mem_flatMap] at h
  rcases h with h | h | ⟨parent, -, h⟩
  · exact isInference_of_mem_background h
  · exact isInference_of_mem_sizeWrites h
  · exact isInference_of_mem_box h

end

/-- A visit only carries out inferences, whatever tree it finds. -/
theorem exists_writes_inferStyle {tree now : ElementTree α}
    (h : tree.Restyled now) (id : ElementId) :
    ∃ writes, inferStyle now id = carryOut now writes
      ∧ ∀ w ∈ writes, IsInference tree w := by
  have hback := h.trans (restyled_carryOut now (offer id "background"
    ((colour? tree id).map (·.toCss))))
  unfold inferStyle
  rw [background_eq_carryOut h, dimensions_eq_carryOut hback,
    ← carryOut_append]
  have hfirst : ∀ w ∈ offer id "background" ((colour? tree id).map (·.toCss))
      ++ sizeWrites tree id, IsInference tree w := by
    intro w hw
    rcases List.mem_append.1 hw with hw | hw
    · exact isInference_of_mem_background hw
    · exact isInference_of_mem_sizeWrites hw
  generalize offer id "background" _ ++ sizeWrites tree id = first at hfirst ⊢
  simp only
  split
  · next parent hparent =>
    split
    · -- the box model goes on from the tree with colour and size
      rw [boxModel_eq_offers (h.trans (restyled_carryOut now first))
        fun _ _ => rfl, ← carryOut_append]
      refine ⟨_, rfl, fun w hw => ?_⟩
      rcases List.mem_append.1 hw with hw | hw
      · exact hfirst w hw
      · exact isInference_of_mem_box hw
    · exact ⟨first, rfl, hfirst⟩
  · exact ⟨first, rfl, hfirst⟩

/-- So does a run, whatever it visits and in whatever order. -/
theorem exists_writes_run {tree now : ElementTree α}
    (h : tree.Restyled now) (ids : List ElementId) :
    ∃ writes, ids.foldl inferStyle now = carryOut now writes
      ∧ ∀ w ∈ writes, IsInference tree w := by
  induction ids generalizing now with
  | nil => exact ⟨[], rfl, List.forall_mem_nil _⟩
  | cons id rest ih =>
      obtain ⟨first, hvisit, hfirst⟩ := exists_writes_inferStyle h id
      obtain ⟨later, hrest, hlater⟩ :=
        ih (h.trans (restyled_carryOut now first))
      refine ⟨first ++ later, ?_, ?_⟩
      · rw [List.foldl_cons, hvisit, hrest, carryOut_append]
      · intro w hw
        rcases List.mem_append.1 hw with hw | hw
        · exact hfirst w hw
        · exact hlater w hw

-- ============================================================== lengths

/-- The properties for which layout infers lengths. -/
def lengths : List String :=
  ["width", "height", "padding-top", "margin-top", "margin-right"]

/-- Whether a value is no negative length, given the property it is for. An
element that is centred has no length for its margin. -/
def IsMeasure (property value : String) : Prop :=
  property ∈ lengths →
    (∃ n : Int, 0 ≤ n ∧ value = px n)
      ∨ property = "margin-right" ∧ value = "auto"

/-- Whether no layer of a tree has a negative size. -/
def IsSized (tree : ElementTree α) : Prop :=
  ∀ id, 0 ≤ (tree.boundsAt id).width.toInt
    ∧ 0 ≤ (tree.boundsAt id).height.toInt

omit [Layer α] in
/-- What is no length has no measure to keep. -/
theorem isMeasure_of_not_mem {property : String} (h : property ∉ lengths)
    (value : String) : IsMeasure property value :=
  fun hmem => absurd hmem h

/-- In a tree without negative sizes layout writes no negative length. -/
theorem IsInference.isMeasure {tree : ElementTree α} {w : Write}
    (h : IsInference tree w) (hsized : IsSized tree) :
    IsMeasure w.property w.value := by
  have hother : ∀ property ∈ ["background", "margin-left", "float"],
      property ∉ lengths := by
    decide
  cases h with
  | colour id c => exact isMeasure_of_not_mem (hother _ (by simp)) _
  | width id => exact fun _ => .inl ⟨_, (hsized id).1, rfl⟩
  | height id => exact fun _ => .inl ⟨_, (hsized id).2, rfl⟩
  | auto id hproperty =>
      simp only [List.mem_cons, List.not_mem_nil, or_false] at hproperty
      rcases hproperty with rfl | rfl
      · exact isMeasure_of_not_mem (hother _ (by simp)) _
      · exact fun _ => .inr ⟨rfl, rfl⟩
  | distance id _ hn => exact fun _ => .inl ⟨_, hn, rfl⟩
  | float id => exact isMeasure_of_not_mem (hother _ (by simp)) _

end Layout

end LayerPage
