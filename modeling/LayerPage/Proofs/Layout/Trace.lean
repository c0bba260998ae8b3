/-
Layout as a list of inferences. A visit reads places and kinds, which
never change, and pins, which never change either, so what it infers can
be read off the tree before layout: `visitWrites`. Running layout is
carrying out the inferences of all visits in turn (`run_eq_carryOut`),
and of several inferences for one property the last one counts.

# The one exception

A visit reads back one value, the height of the parent, when it makes
room for padding above the first child. That height is the parent's own
(`baseHeight?`): its visit came before, and nobody else has written a
height to it yet. `HeightKnown` is what a visit relies on, and the
invariant that carries the run.
-/
import LayerPage.Layout
import LayerPage.Proofs.Element.Restyled
import LayerPage.Proofs.Flow
import LayerPage.Proofs.Length

namespace LayerPage

variable {α : Type}

namespace ElementTree

/-- The value of a property of an element. -/
def valueOf? (tree : ElementTree α) (id : ElementId) (property : String) :
    Option String :=
  (tree.get? id).bind (·.style.get? property)

/-- Whether a property of an element is pinned. -/
def isPinned (tree : ElementTree α) (id : ElementId) (property : String) :
    Bool :=
  (tree.get? id).any (·.style.isPinned property)

/-- Restyling neither pins nor frees a property of any element. -/
theorem Restyled.isPinned {t t' : ElementTree α} (h : t.Restyled t')
    (id : ElementId) (k : String) : t'.isPinned id k = t.isPinned id k := by
  unfold ElementTree.isPinned
  cases hget : t.get? id with
  | none =>
      have hnone : t'.get? id = none := by
        rw [get?_eq_none_iff, h.size, ← get?_eq_none_iff]
        exact hget
      rw [hnone]
  | some e =>
      obtain ⟨e', hget', hstep⟩ := h.get? hget
      rw [hget']
      exact hstep.isPinned k

end ElementTree

namespace Layout

open Length (px parsePx? saturatingSub)

-- ============================================================ inferences

/-- One inference: a value for a property of an element. -/
structure Write where
  target : ElementId
  property : String
  value : String

/-- Carry out inferences one after another. -/
def carryOut (tree : ElementTree α) (writes : List Write) : ElementTree α :=
  writes.foldl
    (fun tree w => tree.modifyStyle w.target (·.infer w.property w.value))
    tree

/-- The last value that is inferred for a property of an element. -/
def latest? (writes : List Write) (id : ElementId) (property : String) :
    Option String :=
  (writes.reverse.find? fun w => w.target = id ∧ w.property = property).map
    (·.value)

/-- An inference, if there is a value for it. -/
def offer (id : ElementId) (property : String) (value? : Option String) :
    List Write :=
  value?.toList.map fun value => ⟨id, property, value⟩

theorem carryOut_append (tree : ElementTree α) (first later : List Write) :
    carryOut tree (first ++ later) = carryOut (carryOut tree first) later :=
  List.foldl_append

/-- Inferences for different properties may change places. -/
theorem carryOut_comm (tree : ElementTree α) {first later : List Write}
    (hne : ∀ v ∈ first, ∀ w ∈ later, v.property ≠ w.property) :
    carryOut (carryOut tree first) later
      = carryOut (carryOut tree later) first := by
  have hone : ∀ (v : Write), (∀ w ∈ later, v.property ≠ w.property) →
      ∀ now : ElementTree α, carryOut (carryOut now [v]) later
        = carryOut (carryOut now later) [v] := by
    clear hne
    induction later with
    | nil => intro v _ now; rfl
    | cons w rest ih =>
        intro v hv now
        have hswap : carryOut (carryOut now [v]) [w]
            = carryOut (carryOut now [w]) [v] :=
          ElementTree.modify_comm (fun e => by
            show ({ e with style := _ } : Element α) = { e with style := _ }
            congr 1
            exact StyleRule.infer_comm (hv w List.mem_cons_self).symm ..) ..
        show carryOut (carryOut (carryOut now [v]) [w]) rest
          = carryOut (carryOut (carryOut now [w]) rest) [v]
        rw [hswap]
        exact ih v (fun u hu => hv u (List.mem_cons_of_mem _ hu)) _
  induction first generalizing tree with
  | nil => rfl
  | cons v rest ih =>
      show carryOut (carryOut (carryOut tree [v]) rest) later
        = carryOut (carryOut (carryOut tree later) [v]) rest
      rw [ih _ fun u hu => hne u (List.mem_cons_of_mem _ hu),
        hone v (hne v List.mem_cons_self)]

/-- Writes change no pins, and nothing but rules. -/
theorem restyled_carryOut (tree : ElementTree α) (writes : List Write) :
    tree.Restyled (carryOut tree writes) := by
  induction writes generalizing tree with
  | nil => exact .refl tree
  | cons w rest ih =>
      refine ElementTree.Restyled.trans ?_ (ih _)
      apply ElementTree.restyled_modifyStyle
      intro rule k
      exact StyleRule.pin?_infer ..

/-- Inferences leave alone what none of them is for. -/
theorem get?_carryOut_of_ne {tree : ElementTree α} {writes : List Write}
    {i : ElementId} (h : ∀ w ∈ writes, i ≠ w.target) :
    (carryOut tree writes).get? i = tree.get? i := by
  induction writes generalizing tree with
  | nil => rfl
  | cons w rest ih =>
      refine (ih fun v hv => h v (List.mem_cons_of_mem _ hv)).trans ?_
      exact ElementTree.get?_modify_of_ne (h w List.mem_cons_self)

/-- Inferences leave alone the properties that none of them is for. -/
theorem valueOf?_carryOut_of_ne {tree : ElementTree α}
    {writes : List Write} {k : String}
    (h : ∀ w ∈ writes, k ≠ w.property) (i : ElementId) :
    (carryOut tree writes).valueOf? i k = tree.valueOf? i k := by
  induction writes generalizing tree with
  | nil => rfl
  | cons w rest ih =>
      refine (ih fun v hv => h v (List.mem_cons_of_mem _ hv)).trans ?_
      unfold ElementTree.valueOf? ElementTree.modifyStyle
      rw [ElementTree.get?_modify]
      split
      · cases tree.get? i with
        | none => rfl
        | some e =>
            show (e.style.infer w.property w.value).get? k = _
            rw [StyleRule.get?_infer,
              if_neg fun hk => h w List.mem_cons_self hk.1]
            rfl
      · rfl

/-- What is offered is one write, if there is a value. -/
theorem mem_offer {id : ElementId} {k : String} {value? : Option String}
    {w : Write} :
    w ∈ offer id k value? ↔ ∃ value, value? = some value
      ∧ w = ⟨id, k, value⟩ := by
  cases value? with
  | none => simp [offer]
  | some value => simp [offer]

/-- An offer is an inference, or nothing. -/
theorem carryOut_offer (tree : ElementTree α) (id : ElementId)
    (property : String) (value? : Option String) :
    carryOut tree (offer id property value?)
      = tree.modifyStyle id fun rule =>
          (value?.map (rule.infer property)).getD rule := by
  cases value? with
  | none => exact (ElementTree.modify_id tree id).symm
  | some value => rfl

-- ======================================================= the last value

@[simp] theorem latest?_nil (id : ElementId) (k : String) :
    latest? [] id k = none := rfl

@[simp] theorem latest?_append (first later : List Write) (id : ElementId)
    (k : String) :
    latest? (first ++ later) id k
      = (latest? later id k).or (latest? first id k) := by
  unfold latest?
  rw [List.reverse_append, List.find?_append, Option.map_or]

theorem latest?_singleton (w : Write) (id : ElementId) (k : String) :
    latest? [w] id k
      = if w.target = id ∧ w.property = k then some w.value else none := by
  unfold latest?
  rw [List.reverse_singleton, List.find?_singleton]
  by_cases h : w.target = id ∧ w.property = k
  · simp [h]
  · simp [h]

/-- An offer speaks of its own element and property. -/
@[simp] theorem latest?_offer (target : ElementId) (property : String)
    (value? : Option String) (id : ElementId) (k : String) :
    latest? (offer target property value?) id k
      = if target = id ∧ property = k then value? else none := by
  cases value? with
  | none => simp [offer]
  | some value => exact latest?_singleton ⟨target, property, value⟩ id k

/-- An inference is read back where the property is free, and changes
nothing else. -/
theorem valueOf?_infer {tree : ElementTree α} {id : ElementId} {k : String}
    (hid : id.index < tree.size) (hfree : tree.isPinned id k = false)
    (w : Write) :
    (tree.modifyStyle w.target (·.infer w.property w.value)).valueOf? id k
      = if w.target = id ∧ w.property = k then some w.value
        else tree.valueOf? id k := by
  obtain ⟨e, hget⟩ := ElementTree.get?_isSome_iff.2 hid
  unfold ElementTree.isPinned at hfree
  unfold ElementTree.valueOf? ElementTree.modifyStyle
  rw [hget, Option.any_some] at hfree
  rw [ElementTree.get?_modify, hget]
  by_cases ht : id = w.target
  · rw [if_pos ht, Option.map_some, Option.bind_some, Option.bind_some]
    show (e.style.infer w.property w.value).get? k = _
    rw [StyleRule.get?_infer]
    by_cases hk : k = w.property
    · subst hk
      rw [if_pos ⟨rfl, hfree⟩, if_pos ⟨ht.symm, rfl⟩]
    · rw [if_neg fun h => hk h.1, if_neg fun h => hk h.2.symm]
  · rw [if_neg ht, if_neg fun h => ht h.1.symm]

/-- After inferences a property that is not pinned has the last value
inferred for it, or else the one it had. -/
theorem valueOf?_carryOut {tree : ElementTree α} {id : ElementId}
    {k : String} (hid : id.index < tree.size)
    (hfree : tree.isPinned id k = false) (writes : List Write) :
    (carryOut tree writes).valueOf? id k
      = (latest? writes id k).or (tree.valueOf? id k) := by
  induction writes generalizing tree with
  | nil => rfl
  | cons w rest ih =>
      have hstep := restyled_carryOut tree [w]
      have hid' : id.index < (carryOut tree [w]).size := by
        rw [hstep.size]
        exact hid
      have hfree' : (carryOut tree [w]).isPinned id k = false := by
        rw [hstep.isPinned]
        exact hfree
      show (carryOut (carryOut tree [w]) rest).valueOf? id k = _
      rw [ih hid' hfree', ← List.singleton_append (x := w) (l := rest),
        latest?_append, Option.or_assoc]
      congr 1
      show (tree.modifyStyle w.target
        (·.infer w.property w.value)).valueOf? id k = _
      rw [valueOf?_infer hid hfree, latest?_singleton]
      split
      · rfl
      · rfl

/-- A pinned property has a value. -/
theorem isSome_valueOf?_of_isPinned {tree : ElementTree α} {id : ElementId}
    {k : String} (h : tree.isPinned id k = true) :
    (tree.valueOf? id k).isSome = true := by
  unfold ElementTree.isPinned at h
  unfold ElementTree.valueOf? StyleRule.get?
  obtain ⟨e, hget, hpinned⟩ := (Option.any_eq_true _ _).1 h
  obtain ⟨d, hd, -⟩ := (Option.any_eq_true _ _).1 hpinned
  rw [hget, Option.bind_some, hd]
  rfl

/-- After inferences a property has a value if it had one or one was
inferred, pinned or not. -/
theorem isSome_valueOf?_carryOut {tree : ElementTree α} {id : ElementId}
    (hid : id.index < tree.size) (k : String) (writes : List Write) :
    ((carryOut tree writes).valueOf? id k).isSome
      = ((latest? writes id k).isSome || (tree.valueOf? id k).isSome) := by
  cases hpin : tree.isPinned id k with
  | true =>
      have hpin' : (carryOut tree writes).isPinned id k = true := by
        rw [(restyled_carryOut tree writes).isPinned, hpin]
      rw [isSome_valueOf?_of_isPinned hpin,
        isSome_valueOf?_of_isPinned hpin', Bool.or_true]
  | false =>
      rw [valueOf?_carryOut hid hpin, Option.isSome_or]

/-- What is among some inferences has a last one for its property. -/
theorem latest?_isSome_of_mem {writes : List Write} {w : Write}
    (h : w ∈ writes) :
    (latest? writes w.target w.property).isSome = true := by
  unfold latest?
  rw [Option.isSome_map, List.find?_isSome]
  exact ⟨w, List.mem_reverse.2 h, by simp⟩

-- ============================================================== a visit

/-- The margin on either side of an element that is centred. -/
def centred? (parent own : Bounds) : Option String :=
  if parent.right - own.right = own.left - parent.left then some "auto"
  else none

/-- What centring an element in its parent infers. -/
def centreWrites (id : ElementId) (parent own : Bounds) : List Write :=
  offer id "margin-left" (centred? parent own)
    ++ offer id "margin-right" (centred? parent own)

/-- Centring an element is two offers, or none. -/
theorem centre_eq_carryOut (now : ElementTree α) (id : ElementId)
    (parent own : Bounds) :
    now.modifyStyle id (centre parent own)
      = carryOut now (centreWrites id parent own) := by
  rw [centreWrites, carryOut_append, carryOut_offer, carryOut_offer]
  unfold ElementTree.modifyStyle
  rw [ElementTree.modify_modify]
  apply ElementTree.modify_congr
  intro e _
  unfold centre centred? Element.modifyStyle
  split
  · rfl
  · rfl

variable [Layer α]

/-- The colour of the first pixel, if it can be seen. -/
def colour? (tree : ElementTree α) (id : ElementId) : Option Colour :=
  ((tree.get? id).bind fun e => Layer.sample? e.layer 0 0).filter
    (!·.isTransparent)

/-- The size of an element that has a parent. -/
def sizeWrites (tree : ElementTree α) (id : ElementId) : List Write :=
  let hasParent := (tree.parentId? id).isSome
  offer id "width" (if hasParent then
      some (px (tree.boundsAt id).width.toInt) else none)
    ++ offer id "height" (if hasParent then
      some (px (tree.boundsAt id).height.toInt) else none)

/-- How far the first child in flow is below the top of its parent. -/
def offset? (tree : ElementTree α) (id parent : ElementId) : Option Int :=
  let offset := (tree.boundsAt id).top - (tree.boundsAt parent).top
  if tree.prevInFlow? id = none ∧ offset > 0 then some offset else none

/-- The height that layout finds at an element when it pads it: its own,
or on the root a length that was there before. -/
def baseHeight? (tree : ElementTree α) (id : ElementId) : Option Int :=
  if tree.parentId? id = none then (tree.valueOf? id "height").bind parsePx?
  else some (tree.boundsAt id).height.toInt

/-- What is left of the height of an element that is padded. -/
def paddedHeight? (tree : ElementTree α) (id : ElementId) (offset : Int) :
    Option String :=
  if tree.isPinned id "padding-top" then none
  else (baseHeight? tree id).map fun height =>
    px (max (saturatingSub height offset) 0)

/-- What is left of a height that an element declares when it is padded. -/
def leftHeight? (tree : ElementTree α) (id : ElementId)
    (height? : Option Int) (offset : Int) : Option String :=
  if tree.isPinned id "padding-top" then none
  else height?.map fun height => px (max (saturatingSub height offset) 0)

/-- Padding above the first child in flow, and what is left of a height
that the parent declares. -/
def paddingFrom (tree : ElementTree α) (id parent : ElementId)
    (height? : Option Int) : List Write :=
  offer parent "padding-top" ((offset? tree id parent).map px)
    ++ offer parent "height"
      ((offset? tree id parent).bind (leftHeight? tree parent height?))

/-- Padding above the first child in flow, and what is left of the
height. -/
def paddingWrites (tree : ElementTree α) (id parent : ElementId) :
    List Write :=
  offer parent "padding-top" ((offset? tree id parent).map px)
    ++ offer parent "height"
      ((offset? tree id parent).bind (paddedHeight? tree parent))

/-- The room above the next element in flow. -/
def above? (tree : ElementTree α) (id next : ElementId) : Option String :=
  let gap := (tree.boundsAt next).top - (tree.boundsAt id).bottom
  if gap > 0 then some (px gap) else none

/-- How the next element in flow floats if it is level. -/
def level? (tree : ElementTree α) (id next : ElementId) : Option String :=
  if (tree.boundsAt next).top = (tree.boundsAt id).top then some "left"
  else none

/-- The room before the next element in flow if it is level. -/
def between? (tree : ElementTree α) (id next : ElementId) :
    Option String :=
  let gap := (tree.boundsAt next).left - (tree.boundsAt id).right
  if (tree.boundsAt next).top = (tree.boundsAt id).top ∧ gap > 0 then
    some (px gap)
  else none

/-- What a visit infers from the next element in flow. -/
def spacingWrites (tree : ElementTree α) (id next : ElementId) :
    List Write :=
  offer next "margin-top" (above? tree id next)
    ++ (offer id "float" (level? tree id next)
      ++ (offer next "float" (level? tree id next)
        ++ offer id "margin-right" (between? tree id next)))

/-- What a visit infers inside a normal layer. -/
def boxWrites (tree : ElementTree α) (id parent : ElementId) : List Write :=
  centreWrites id (tree.boundsAt parent) (tree.boundsAt id)
    ++ (paddingWrites tree id parent
      ++ (tree.nextInFlow? id).toList.flatMap (spacingWrites tree id))

/-- All that a visit infers. -/
def visitWrites (tree : ElementTree α) (id : ElementId) : List Write :=
  offer id "background" ((colour? tree id).map (·.toCss))
    ++ (sizeWrites tree id
      ++ (tree.normalParent? id).toList.flatMap (boxWrites tree id))

/-- What a visit infers is for its element, for the parent of that, or for
the next element in flow. -/
theorem target_of_mem_visitWrites {tree : ElementTree α} {u : ElementId}
    {w : Write} (h : w ∈ visitWrites tree u) :
    w.target = u ∨ ∃ p, tree.normalParent? u = some p
      ∧ (w.target = p ∨ tree.nextInFlow? u = some w.target) := by
  unfold visitWrites sizeWrites at h
  simp only [List.mem_append, List.mem_flatMap, Option.mem_toList,
    mem_offer] at h
  rcases h with ⟨_, -, rfl⟩ | (⟨_, -, rfl⟩ | ⟨_, -, rfl⟩) | ⟨p, hp, h⟩
  · exact .inl rfl
  · exact .inl rfl
  · exact .inl rfl
  unfold boxWrites centreWrites paddingWrites at h
  simp only [List.mem_append, List.mem_flatMap, Option.mem_toList,
    mem_offer] at h
  rcases h with (⟨_, -, rfl⟩ | ⟨_, -, rfl⟩) | (⟨_, -, rfl⟩ | ⟨_, -, rfl⟩)
    | ⟨next, hnext, h⟩
  · exact .inl rfl
  · exact .inl rfl
  · exact .inr ⟨p, hp, .inl rfl⟩
  · exact .inr ⟨p, hp, .inl rfl⟩
  unfold spacingWrites at h
  simp only [List.mem_append, mem_offer] at h
  rcases h with ⟨_, -, rfl⟩ | ⟨_, -, rfl⟩ | ⟨_, -, rfl⟩ | ⟨_, -, rfl⟩
  · exact .inr ⟨p, hp, .inr hnext⟩
  · exact .inl rfl
  · exact .inr ⟨p, hp, .inr hnext⟩
  · exact .inl rfl

-- ================================================ a visit is its writes

/-- The background is offered as the colour of the layer. -/
theorem background_eq_carryOut {tree now : ElementTree α}
    (h : tree.Restyled now) (id : ElementId) :
    background now id
      = carryOut now (offer id "background"
          ((colour? tree id).map (·.toCss))) := by
  rw [carryOut_offer]
  apply ElementTree.modify_congr
  intro e hget
  unfold colour?
  rw [← h.bind_get? fun _ _ => rfl, hget, Option.bind_some]
  cases Layer.sample? e.layer 0 0 with
  | none => rfl
  | some colour =>
      show (if colour.isTransparent = true then e else _) = _
      rw [Option.filter_some]
      cases colour.isTransparent with
      | true => rfl
      | false => rfl

/-- The size of an element is offered by its own visit, except to an
element without a parent. -/
theorem dimensions_eq_carryOut {tree now : ElementTree α}
    (h : tree.Restyled now) (id : ElementId) :
    dimensions now id = carryOut now (sizeWrites tree id) := by
  rw [sizeWrites, carryOut_append, carryOut_offer, carryOut_offer]
  unfold ElementTree.modifyStyle
  rw [ElementTree.modify_modify]
  apply ElementTree.modify_congr
  intro e hget
  have hparent : tree.parentId? id = e.parent? := by
    rw [← h.parentId?, ElementTree.parentId?, hget, Option.bind_some]
  have hbounds : tree.boundsAt id = e.bounds := by
    rw [← h.boundsAt, ElementTree.boundsAt, hget]
    rfl
  rw [hparent, hbounds]
  cases e.parent? with
  | none => rfl
  | some p => rfl

/-- Whether the height that is read back at an element is the one that
layout counts on. -/
def HeightKnown (tree now : ElementTree α) (id : ElementId) : Prop :=
  now.isPinned id "height" = false →
    (now.valueOf? id "height").bind parsePx? = baseHeight? tree id

/-- Padding a rule, given the height that it declares unless that is
pinned. -/
theorem padTop_eq_infer {rule : StyleRule} {height? : Option Int}
    (hknown : rule.isPinned "height" = false →
      (rule.get? "height").bind parsePx? = height?) (offset : Int) :
    padTop offset rule
      = if rule.isPinned "padding-top" = true then rule
        else ((height?.map fun height =>
            px (max (saturatingSub height offset) 0)).map
          ((rule.infer "padding-top" (px offset)).infer "height")).getD
            (rule.infer "padding-top" (px offset)) := by
  unfold padTop StyleRule.infer?
  by_cases hpad : rule.isPinned "padding-top" = true
  · rw [if_pos hpad, if_pos hpad]
  · -- padding is not the height, so that is still what it was
    have hheight : (rule.infer "padding-top" (px offset)).get? "height"
        = rule.get? "height" := by
      rw [StyleRule.get?_infer, if_neg fun h => absurd h.1 (by decide)]
    rw [if_neg hpad, if_neg hpad,
      ← StyleRule.infer_of_free (Bool.eq_false_iff.2 hpad)]
    simp only
    rw [hheight]
    by_cases hpin : rule.isPinned "height" = true
    · -- whatever is read, nothing is written
      have hkeep : ∀ value, (rule.infer "padding-top" (px offset)).infer
          "height" value = rule.infer "padding-top" (px offset) := by
        intro value
        apply StyleRule.infer_of_isPinned
        rw [StyleRule.isPinned_infer]
        exact hpin
      have hright : ∀ value? : Option String, (value?.map
          ((rule.infer "padding-top" (px offset)).infer "height")).getD
            (rule.infer "padding-top" (px offset))
          = rule.infer "padding-top" (px offset) := by
        intro value?
        cases value? with
        | none => rfl
        | some value => exact hkeep value
      rw [hright]
      split
      · exact hkeep _
      · rfl
    · rw [hknown (Bool.eq_false_iff.2 hpin)]
      cases height? with
      | none => rfl
      | some height => rfl

omit [Layer α] in
/-- Padding an element is two inferences, given the height that it declares
unless that is pinned. -/
theorem padTop_eq_offers {now : ElementTree α} {id : ElementId}
    {height? : Option Int}
    (hknown : now.isPinned id "height" = false →
      (now.valueOf? id "height").bind parsePx? = height?) (offset : Int) :
    now.modifyStyle id (padTop offset)
      = carryOut now (offer id "padding-top" (some (px offset))
          ++ offer id "height" (leftHeight? now id height? offset)) := by
  rw [carryOut_append, carryOut_offer, carryOut_offer]
  unfold ElementTree.modifyStyle
  rw [ElementTree.modify_modify]
  apply ElementTree.modify_congr
  intro e hget
  have hpinned : ∀ k, now.isPinned id k = e.style.isPinned k := by
    intro k
    unfold ElementTree.isPinned
    rw [hget, Option.any_some]
  have hheight : e.style.isPinned "height" = false →
      (e.style.get? "height").bind parsePx? = height? := by
    intro hfree
    rw [← hknown (by rw [hpinned, hfree]), ElementTree.valueOf?, hget,
      Option.bind_some]
  unfold leftHeight? Element.modifyStyle
  rw [hpinned, padTop_eq_infer hheight]
  show _ = { e with style := _ }
  congr 1
  by_cases hpad : e.style.isPinned "padding-top" = true
  · rw [if_pos hpad, if_pos hpad]
    exact (StyleRule.infer_of_isPinned hpad _).symm
  · rw [if_neg hpad, if_neg hpad]
    rfl

/-- Spacing two peers is an offer to each of them, read off the bounds
before anything was written. -/
theorem spaceNext_eq_carryOut {tree now : ElementTree α}
    (h : tree.Restyled now) (id next : ElementId) :
    spaceNext now id (tree.boundsAt id) next
      = carryOut now (spacingWrites tree id next) := by
  unfold spaceNext spacingWrites above? level? between?
  simp only [h.boundsAt]
  by_cases hlevel : (tree.boundsAt next).top = (tree.boundsAt id).top
  · by_cases hbetween :
      (tree.boundsAt next).left - (tree.boundsAt id).right > 0
    · have hboth := And.intro hlevel hbetween
      rw [if_pos hlevel, if_pos hlevel, if_pos hbetween, if_pos hboth,
        carryOut_append]
      split
      · rfl
      · rfl
    · have hboth : ¬((tree.boundsAt next).top = (tree.boundsAt id).top
          ∧ (tree.boundsAt next).left - (tree.boundsAt id).right > 0) :=
        fun h => hbetween h.2
      rw [if_pos hlevel, if_pos hlevel, if_neg hbetween, if_neg hboth,
        carryOut_append]
      split
      · rfl
      · rfl
  · have hboth : ¬((tree.boundsAt next).top = (tree.boundsAt id).top
        ∧ (tree.boundsAt next).left - (tree.boundsAt id).right > 0) :=
      fun h => hlevel h.1
    rw [if_neg hlevel, if_neg hlevel, if_neg hboth, carryOut_append]
    split
    · rfl
    · rfl

/-- What is offered to another element leaves the height of this
one known. -/
theorem heightKnown_carryOut {tree now : ElementTree α} {id p : ElementId}
    (hne : p ≠ id) (h : HeightKnown tree now p) (property : String)
    (value? : Option String) :
    HeightKnown tree (carryOut now (offer id property value?)) p := by
  have hget : (carryOut now (offer id property value?)).get? p
      = now.get? p := by
    rw [carryOut_offer]
    exact ElementTree.get?_modify_of_ne hne
  unfold HeightKnown ElementTree.isPinned ElementTree.valueOf? at h ⊢
  rw [hget]
  exact h

/-- What a visit infers inside a normal layer, given the height that the
parent declares unless that is pinned. -/
theorem boxModel_eq_offers {tree now : ElementTree α}
    (h : tree.Restyled now) {id p : ElementId} {height? : Option Int}
    (hknown : tree.prevInFlow? id = none → now.isPinned p "height" = false →
      (now.valueOf? p "height").bind parsePx? = height?) :
    boxModel now id p
      = carryOut now (centreWrites id (tree.boundsAt p) (tree.boundsAt id)
          ++ (paddingFrom tree id p height?
            ++ (tree.nextInFlow? id).toList.flatMap
              (spacingWrites tree id))) := by
  unfold boxModel
  simp only [h.boundsAt]
  rw [centre_eq_carryOut, carryOut_append]
  -- centring writes no height, so the height is still known after it
  have hcentred := h.trans (restyled_carryOut now
    (centreWrites id (tree.boundsAt p) (tree.boundsAt id)))
  have hmargins : ∀ w ∈ centreWrites id (tree.boundsAt p)
      (tree.boundsAt id), "height" ≠ w.property := by
    intro w hw
    unfold centreWrites at hw
    rcases List.mem_append.1 hw with hw | hw
    · obtain ⟨value, -, rfl⟩ := mem_offer.1 hw
      show "height" ≠ "margin-left"
      decide
    · obtain ⟨value, -, rfl⟩ := mem_offer.1 hw
      show "height" ≠ "margin-right"
      decide
  have hknown' : tree.prevInFlow? id = none →
      (carryOut now (centreWrites id (tree.boundsAt p)
        (tree.boundsAt id))).isPinned p "height" = false →
      ((carryOut now (centreWrites id (tree.boundsAt p)
        (tree.boundsAt id))).valueOf? p "height").bind parsePx?
        = height? := by
    rw [(restyled_carryOut ..).isPinned, valueOf?_carryOut_of_ne hmargins]
    exact hknown
  generalize carryOut now _ = centred at hcentred hknown' ⊢
  rw [hcentred.prevInFlow?, hcentred.nextInFlow?, carryOut_append]
  have hpadded : (if ((tree.prevInFlow? id).isNone
        && decide ((tree.boundsAt id).top - (tree.boundsAt p).top > 0)) = true
      then centred.modifyStyle p
        (padTop ((tree.boundsAt id).top - (tree.boundsAt p).top))
      else centred)
      = carryOut centred (paddingFrom tree id p height?) := by
    unfold paddingFrom offset?
    simp only [Bool.and_eq_true, Option.isNone_iff_eq_none,
      decide_eq_true_eq]
    split
    · next hfirst =>
      have hpadded := padTop_eq_offers (hknown' hfirst.1)
        ((tree.boundsAt id).top - (tree.boundsAt p).top)
      rw [leftHeight?, hcentred.isPinned] at hpadded
      exact hpadded
    · rfl
  rw [hpadded]
  have hrest := hcentred.trans
    (restyled_carryOut centred (paddingFrom tree id p height?))
  -- spacing reads bounds alone, so it is offered what it was before
  cases tree.nextInFlow? id with
  | none => rfl
  | some next =>
      rw [Option.toList_some, List.flatMap_singleton]
      exact spaceNext_eq_carryOut hrest id next

/-- The box model of an element is its writes. The padding of the parent is
the one place where layout reads what it has written, its height; that is
why the height has to be known. -/
theorem boxModel_eq_carryOut {tree now : ElementTree α}
    (h : tree.Restyled now) {id p : ElementId}
    (hknown : tree.prevInFlow? id = none → HeightKnown tree now p) :
    boxModel now id p = carryOut now (boxWrites tree id p) :=
  boxModel_eq_offers h hknown

/-- A visit carries out its inferences, if it can count on the height it
reads back. -/
theorem inferStyle_eq_carryOut {tree now : ElementTree α}
    (h : tree.Restyled now) {id : ElementId}
    (hne : ∀ p, tree.normalParent? id = some p → p ≠ id)
    (hknown : ∀ p, tree.normalParent? id = some p →
      tree.prevInFlow? id = none → HeightKnown tree now p) :
    inferStyle now id = carryOut now (visitWrites tree id) := by
  have hback := h.trans (restyled_carryOut now (offer id "background"
    ((colour? tree id).map (·.toCss))))
  unfold inferStyle visitWrites
  rw [carryOut_append, carryOut_append, background_eq_carryOut h,
    dimensions_eq_carryOut hback]
  -- colour and size are written to the element, not to its parent
  have hknown' : ∀ p, tree.normalParent? id = some p →
      tree.prevInFlow? id = none → HeightKnown tree
        (carryOut (carryOut now (offer id "background"
          ((colour? tree id).map (·.toCss)))) (sizeWrites tree id)) p := by
    intro p hp hfirst
    have hp' := hne p hp
    rw [sizeWrites, carryOut_append]
    exact heightKnown_carryOut hp' (heightKnown_carryOut hp'
      (heightKnown_carryOut hp' (hknown p hp hfirst) _ _) _ _) _ _
  have hsized := hback.trans (restyled_carryOut (carryOut now
    (offer id "background" ((colour? tree id).map (·.toCss))))
    (sizeWrites tree id))
  generalize carryOut (carryOut now _) _ = sized at hsized hknown' ⊢
  have hparent : (sized.get? id).bind (·.parent?) = tree.parentId? id :=
    hsized.parentId? id
  simp only
  rw [hparent]
  cases hp : tree.normalParent? id with
  | some p =>
      have hkind : sized.parentKind? id = some .normal := by
        rw [ElementTree.parentKind?_eq_normal_iff, hsized.normalParent?]
        exact ⟨p, hp⟩
      rw [ElementTree.parentId?_of_normalParent? hp, Option.toList_some,
        List.flatMap_singleton]
      simp only
      rw [if_pos hkind]
      exact boxModel_eq_carryOut hsized (hknown' p hp)
  | none =>
      have hkind : sized.parentKind? id ≠ some .normal := by
        rw [ne_eq, ElementTree.parentKind?_eq_normal_iff,
          hsized.normalParent?, hp]
        rintro ⟨p, hsome⟩
        cases hsome
      cases tree.parentId? id with
      | none => rfl
      | some q =>
          simp only
          rw [if_neg hkind]
          rfl

end Layout

end LayerPage
