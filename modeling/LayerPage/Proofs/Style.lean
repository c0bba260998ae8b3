/-
Style rules as functions from properties to declarations: what pinning,
inferring and absorbing do to the declaration of one property, and when a
rule has anything to write.

`pin?` is the part of a rule that was written by hand. Pinning replaces
it property by property, and no inference changes it (`pin?_infer`); a
rule that was never inferred into has nothing else (`HandWritten`).
-/
import LayerPage.Style
import LayerPage.Proofs.SortedMap

namespace LayerPage.StyleRule

-- ======================================================== one operation

/-- A rule is its selector and what it says of each property. -/
theorem ext_get? {r r' : StyleRule} (hsel : r.selector = r'.selector)
    (h : ∀ k, r.declarations.get? k = r'.declarations.get? k) : r = r' := by
  obtain ⟨sel, decls⟩ := r
  obtain ⟨sel', decls'⟩ := r'
  have hdecls : decls = decls' := SortedMap.ext_get? h
  subst hdecls
  cases hsel
  rfl

/-- Pinning declares one property, and leaves the others as they are. -/
theorem declarations_pin (rule : StyleRule) (property value k : String) :
    (rule.pin property value).declarations.get? k
      = if k = property then some ⟨value, true⟩
        else rule.declarations.get? k :=
  SortedMap.get?_insert ..

/-- Setting a property keeps its pin, if it has one. -/
theorem declarations_set (rule : StyleRule) (property value k : String) :
    (rule.set property value).declarations.get? k
      = if k = property then some ⟨value, rule.isPinned property⟩
        else rule.declarations.get? k :=
  SortedMap.get?_insert ..

/-- Only the property that is pinned gets a pin. -/
theorem isPinned_pin (rule : StyleRule) (property value k : String) :
    (rule.pin property value).isPinned k
      = if k = property then true else rule.isPinned k := by
  unfold isPinned
  rw [declarations_pin]
  split
  · rfl
  · rfl

/-- A plain write keeps every pin. -/
theorem isPinned_set (rule : StyleRule) (property value k : String) :
    (rule.set property value).isPinned k = rule.isPinned k := by
  unfold isPinned
  rw [declarations_set]
  split
  · next heq => rw [heq]; rfl
  · rfl

/-- An inference writes an unpinned declaration, or nothing. -/
theorem declarations_infer (rule : StyleRule) (property value k : String) :
    (rule.infer property value).declarations.get? k
      = if k = property ∧ rule.isPinned property = false
        then some ⟨value, false⟩ else rule.declarations.get? k := by
  unfold infer infer?
  cases hp : rule.isPinned property with
  | true => simp
  | false =>
      simp only [Bool.false_eq_true, if_false, Option.getD_some, and_true]
      rw [declarations_set, hp]

/-- Inferring neither pins a property nor frees one. -/
@[simp] theorem isPinned_infer (rule : StyleRule) (property value k : String) :
    (rule.infer property value).isPinned k = rule.isPinned k := by
  have hd := declarations_infer rule property value k
  by_cases h : k = property ∧ rule.isPinned property = false
  · rw [if_pos h] at hd
    rw [h.1, h.2]
    rw [h.1] at hd
    unfold isPinned
    rw [hd]
    rfl
  · rw [if_neg h] at hd
    unfold isPinned
    rw [hd]

/-- Setting a property changes that property and no other one. -/
theorem get?_set (rule : StyleRule) (property value k : String) :
    (rule.set property value).get? k
      = if k = property then some value else rule.get? k := by
  unfold get?
  rw [declarations_set]
  split
  · rfl
  · rfl

theorem get?_pin (rule : StyleRule) (property value k : String) :
    (rule.pin property value).get? k
      = if k = property then some value else rule.get? k := by
  unfold get?
  rw [declarations_pin]
  split
  · rfl
  · rfl

/-- An inferred value is read back only if the property is free. -/
theorem get?_infer (rule : StyleRule) (property value k : String) :
    (rule.infer property value).get? k
      = if k = property ∧ rule.isPinned property = false
        then some value else rule.get? k := by
  unfold get?
  rw [declarations_infer]
  split
  · rfl
  · rfl

-- =========================================================== declared

/-- The declared properties are those the rule contains. -/
theorem mem_keys_iff {rule : StyleRule} {k : String} :
    k ∈ rule.declarations.keys ↔ rule.contains k = true :=
  SortedMap.mem_keys_iff

/-- What is pinned is declared. -/
theorem contains_of_isPinned {rule : StyleRule} {k : String}
    (h : rule.isPinned k = true) : rule.contains k = true := by
  unfold isPinned at h
  unfold contains SortedMap.contains
  cases hget : rule.declarations.get? k with
  | none => rw [hget] at h; cases h
  | some declaration => rfl

/-- No text is the name of two declarations. -/
theorem keys_nodup (rule : StyleRule) : rule.declarations.keys.Nodup := by
  unfold SortedMap.keys
  rw [List.nodup_iff_pairwise_ne, List.pairwise_map]
  refine rule.declarations.ascending.imp ?_
  intro a b hlt heq
  rw [heq] at hlt
  exact String.lt_irrefl _ hlt

/-- A rule is empty if no property has a value in it. -/
theorem isEmpty_iff {rule : StyleRule} :
    rule.isEmpty = true ↔ ∀ k, rule.get? k = none := by
  constructor
  · intro hempty k
    have hlist : rule.declarations.toList = [] := List.isEmpty_iff.1 hempty
    unfold get? SortedMap.get?
    rw [hlist]
    rfl
  · intro hnone
    refine List.isEmpty_iff.2 (List.eq_nil_iff_forall_not_mem.2 ?_)
    rintro ⟨k, declaration⟩ hmem
    have hget := SortedMap.mem_toList_iff.1 hmem
    exact absurd (hnone k) (by simp [get?, hget])

-- ===================================================== pins, all at once

@[simp] theorem pinAll_selector (rule : StyleRule)
    (declarations : List (String × String)) :
    (rule.pinAll declarations).selector = rule.selector := by
  induction declarations generalizing rule with
  | nil => rfl
  | cons d rest ih => exact ih (rule.pin d.1 d.2)

theorem pinAll_append (rule : StyleRule)
    (first later : List (String × String)) :
    rule.pinAll (first ++ later) = (rule.pinAll first).pinAll later :=
  List.foldl_append

/-- Of several pins on one property the last one counts. -/
theorem declarations_pinAll (rule : StyleRule)
    (declarations : List (String × String)) (k : String) :
    (rule.pinAll declarations).declarations.get? k
      = ((declarations.reverse.lookup k).map (⟨·, true⟩)).or
          (rule.declarations.get? k) := by
  induction declarations generalizing rule with
  | nil => rfl
  | cons d rest ih =>
      obtain ⟨property, value⟩ := d
      have hstep : rule.pinAll ((property, value) :: rest)
          = (rule.pin property value).pinAll rest := rfl
      rw [hstep, ih, declarations_pin, List.reverse_cons,
        List.lookup_append, Option.map_or, Option.or_assoc]
      congr 1
      by_cases hk : k = property
      · simp [hk]
      · have hne : (k == property) = false := beq_eq_false_iff_ne.2 hk
        simp [List.lookup_cons, hk, hne]

/-- The value a property is pinned to. -/
def pin? (rule : StyleRule) (property : String) : Option String :=
  (rule.declarations.get? property).bind fun d =>
    if d.pinned then some d.value else none

/-- A pin is a declaration that is marked as one. -/
theorem pin?_eq_some_iff {rule : StyleRule} {k v : String} :
    rule.pin? k = some v
      ↔ rule.declarations.get? k = some ⟨v, true⟩ := by
  unfold pin?
  cases rule.declarations.get? k with
  | none => simp
  | some d =>
      obtain ⟨value, pinned⟩ := d
      cases pinned with
      | true => simp
      | false => simp

/-- Reading a pin finds nothing exactly where there is none. -/
theorem pin?_eq_none_iff {rule : StyleRule} {k : String} :
    rule.pin? k = none ↔ rule.isPinned k = false := by
  unfold pin? isPinned
  cases rule.declarations.get? k with
  | none => simp
  | some d =>
      obtain ⟨value, pinned⟩ := d
      cases pinned with
      | true => simp
      | false => simp

/-- The list of pins holds what reading them finds. -/
theorem mem_pinned_iff {rule : StyleRule} {k v : String} :
    (k, v) ∈ rule.pinned ↔ rule.pin? k = some v := by
  unfold pinned
  rw [List.mem_filterMap, pin?_eq_some_iff, ← SortedMap.mem_toList_iff]
  constructor
  · rintro ⟨⟨property, value, pinned⟩, hmem, hd⟩
    cases pinned with
    | false => simp at hd
    | true =>
        simp only [if_true, Option.some.injEq, Prod.mk.injEq] at hd
        obtain ⟨rfl, rfl⟩ := hd
        exact hmem
  · intro h
    exact ⟨(k, ⟨v, true⟩), h, by simp⟩

/-- The list of pins, read from its end, finds the pin of a property:
no property is listed twice. -/
theorem lookup_reverse_pinned (rule : StyleRule) (k : String) :
    rule.pinned.reverse.lookup k = rule.pin? k := by
  apply SortedMap.lookup_eq_of_mem_iff
  intro v
  rw [List.mem_reverse, mem_pinned_iff]

/-- The pins of another rule win over what a rule says, and what they are
silent about stays. -/
theorem declarations_pinAll_pinned (rule other : StyleRule) (k : String) :
    (rule.pinAll other.pinned).declarations.get? k
      = ((other.pin? k).map (⟨·, true⟩)).or (rule.declarations.get? k) := by
  rw [declarations_pinAll, lookup_reverse_pinned]

/-- Of the properties that are pinned at once, the last one of a name
counts. -/
theorem pin?_pinAll (rule : StyleRule)
    (declarations : List (String × String)) (k : String) :
    (rule.pinAll declarations).pin? k
      = (declarations.reverse.lookup k).or (rule.pin? k) := by
  unfold pin?
  rw [declarations_pinAll]
  cases declarations.reverse.lookup k with
  | none => rfl
  | some v => rfl

/-- Pinning the entries of a map: each of its keys has the map's value. -/
theorem declarations_pinAll_toList (rule : StyleRule)
    (pins : SortedMap String) (k : String) :
    (rule.pinAll pins.toList).declarations.get? k
      = ((pins.get? k).map (⟨·, true⟩)).or (rule.declarations.get? k) := by
  rw [declarations_pinAll, SortedMap.lookup_reverse_toList]

/-- It makes no difference whether a list of pins is sorted first. -/
theorem pinAll_ofList (rule : StyleRule) (pins : List (String × String)) :
    rule.pinAll (SortedMap.ofList pins).toList = rule.pinAll pins := by
  apply ext_get?
  · rw [pinAll_selector, pinAll_selector]
  · intro k
    rw [declarations_pinAll_toList, declarations_pinAll, SortedMap.ofList,
      SortedMap.get?_insertAll]
    congr 2
    exact Option.or_none

/-- Absorbing a rule that declares only pins is overlaying its pins. -/
theorem pinAll_overlay (rule : StyleRule) (selector : String)
    (lower upper : SortedMap String) :
    (rule.pinAll lower.toList).pinAll
        (StyleRule.pinAll { selector } upper.toList).pinned
      = rule.pinAll (lower.overlay upper).toList := by
  have hupper : ∀ k, (StyleRule.pinAll { selector } upper.toList).pin? k
      = upper.get? k := by
    intro k
    rw [pin?_pinAll, SortedMap.lookup_reverse_toList]
    exact Option.or_none
  apply ext_get?
  · rw [pinAll_selector, pinAll_selector, pinAll_selector]
  · intro k
    rw [declarations_pinAll_pinned, declarations_pinAll_toList,
      declarations_pinAll_toList, hupper, SortedMap.get?_overlay,
      Option.map_or, Option.or_assoc]

-- ============================================================ by hand

/-- Whether a rule declares nothing but its pins. -/
def HandWritten (rule : StyleRule) : Prop :=
  ∀ k, rule.isPinned k = false → rule.get? k = none

/-- A rule that says nothing says nothing without a pin. -/
theorem handWritten_of_isEmpty {rule : StyleRule}
    (h : rule.isEmpty = true) : rule.HandWritten := by
  intro k _
  exact isEmpty_iff.1 h k

/-- Pinning properties leaves a rule of pins one. -/
theorem HandWritten.pinAll {rule : StyleRule} (h : rule.HandWritten)
    (declarations : List (String × String)) :
    (rule.pinAll declarations).HandWritten := by
  intro k hfree
  rw [← pin?_eq_none_iff, pin?_pinAll, Option.or_eq_none_iff] at hfree
  obtain ⟨hlookup, hpin⟩ := hfree
  have hnone := h k (pin?_eq_none_iff.1 hpin)
  unfold get? at hnone ⊢
  rw [declarations_pinAll, hlookup]
  exact hnone

/-- The value of a pin is the value of its property. -/
theorem get?_of_pin? {rule : StyleRule} {k v : String}
    (h : rule.pin? k = some v) :
    rule.get? k = some v ∧ rule.isPinned k = true := by
  rw [pin?_eq_some_iff] at h
  unfold get? isPinned
  rw [h]
  exact ⟨rfl, rfl⟩

-- ========================================================= inferences

/-- No inference changes a pin. -/
@[simp] theorem pin?_infer (rule : StyleRule) (property value k : String) :
    (rule.infer property value).pin? k = rule.pin? k := by
  have hd := declarations_infer rule property value k
  by_cases h : k = property ∧ rule.isPinned property = false
  · obtain ⟨rfl, hfree⟩ := h
    rw [pin?_eq_none_iff.2 hfree, pin?_eq_none_iff, isPinned_infer]
    exact hfree
  · rw [if_neg h] at hd
    unfold pin?
    rw [hd]

@[simp] theorem pin?_withSelector (rule : StyleRule) (selector k : String) :
    (rule.withSelector selector).pin? k = rule.pin? k := rfl

/-- Inference leaves a rule alone where the property is pinned. -/
theorem infer_of_isPinned {rule : StyleRule} {property : String}
    (h : rule.isPinned property = true) (value : String) :
    rule.infer property value = rule := by
  unfold infer infer?
  rw [if_pos h]
  rfl

/-- Where a property is not pinned, inference sets it. -/
theorem infer_of_free {rule : StyleRule} {property : String}
    (h : rule.isPinned property = false) (value : String) :
    rule.infer property value = rule.set property value := by
  unfold infer infer?
  rw [if_neg (by rw [h]; exact Bool.false_ne_true)]
  rfl

@[simp] theorem infer_selector (rule : StyleRule) (property value : String) :
    (rule.infer property value).selector = rule.selector := by
  unfold infer infer?
  split
  · rfl
  · rfl

/-- Inferences for different properties may change places. -/
theorem infer_comm {p q : String} (hne : p ≠ q) (rule : StyleRule)
    (v w : String) :
    (rule.infer p v).infer q w = (rule.infer q w).infer p v := by
  apply ext_get?
  · simp only [infer_selector]
  · intro k
    simp only [declarations_infer, isPinned_infer]
    by_cases hp : k = p
    · have hq : ¬(k = q ∧ rule.isPinned q = false) := by
        rintro ⟨rfl, -⟩
        exact hne hp.symm
      rw [if_neg hq, if_neg hq]
    · have hp' : ¬(k = p ∧ rule.isPinned p = false) := fun h => hp h.1
      rw [if_neg hp', if_neg hp']

/-- The same inference a second time changes nothing. -/
theorem infer_infer (rule : StyleRule) (property value : String) :
    (rule.infer property value).infer property value
      = rule.infer property value := by
  apply ext_get?
  · exact infer_selector ..
  · intro k
    simp only [declarations_infer, isPinned_infer]
    split
    · rfl
    · rfl

/-- Inference and selectors do not get in each other's way. -/
theorem infer_withSelector (rule : StyleRule)
    (selector property value : String) :
    (rule.withSelector selector).infer property value
      = (rule.infer property value).withSelector selector := by
  apply ext_get?
  · exact infer_selector ..
  · intro k
    show _ = (rule.infer property value).declarations.get? k
    rw [declarations_infer, declarations_infer]
    rfl

-- ============================================================= writing

/-- A rule that is not written has no text. -/
theorem toCss_of_not_isWritten {rule : StyleRule}
    (h : rule.isWritten = false) : rule.toCss = "" := by
  unfold toCss
  rw [h]
  rfl

/-- What has nothing to declare is not written. -/
theorem toCss_of_isEmpty {rule : StyleRule}
    (h : rule.isEmpty = true) : rule.toCss = "" := by
  apply toCss_of_not_isWritten
  rw [isWritten, h, Bool.not_true, Bool.and_false]

/-- Nothing else is left out. -/
theorem toCss_ne_empty {rule : StyleRule}
    (h : rule.isWritten = true) : rule.toCss ≠ "" := by
  intro hempty
  have hlength := congrArg String.length hempty
  unfold toCss at hlength
  rw [if_pos h] at hlength
  simp only [String.length_append] at hlength
  have htab : "\t".length = 1 := rfl
  have hnone : "".length = 0 := rfl
  omega

/-- A rule is written if it has a selector and something to say. -/
theorem isWritten_iff {rule : StyleRule} :
    rule.isWritten = true ↔ rule.selector ≠ "" ∧ rule.isEmpty = false := by
  unfold isWritten
  rw [Bool.and_eq_true, Bool.not_eq_true', Bool.not_eq_true',
    Bool.eq_false_iff, ne_eq, String.isEmpty_iff]

/-- A rule that declares something is written as soon as it has a
selector. -/
theorem isWritten_of_get? {rule : StyleRule} {property : String}
    (hselector : rule.selector ≠ "")
    (h : (rule.get? property).isSome = true) : rule.isWritten = true := by
  refine isWritten_iff.2 ⟨hselector, Bool.eq_false_iff.2 fun hempty => ?_⟩
  rw [isEmpty_iff.1 hempty property] at h
  cases h

/-- Only a rule that is written has a text, so the text tells them from the
others. -/
theorem toCss_eq_empty_iff_isWritten {rule : StyleRule} :
    rule.toCss = "" ↔ rule.isWritten = false := by
  constructor
  · intro hempty
    exact Bool.eq_false_iff.2 fun hwritten => toCss_ne_empty hwritten hempty
  · exact toCss_of_not_isWritten

/-- Among the rules that declare something, those without a selector have
no text. -/
theorem toCss_eq_empty_iff {rule : StyleRule} {property : String}
    (h : (rule.get? property).isSome = true) :
    rule.toCss = "" ↔ rule.selector = "" := by
  have hdeclares : rule.isEmpty = false := by
    refine Bool.eq_false_iff.2 fun hempty => ?_
    rw [isEmpty_iff.1 hempty property] at h
    cases h
  rw [toCss_eq_empty_iff_isWritten, Bool.eq_false_iff, ne_eq, isWritten_iff,
    and_iff_left hdeclares, Decidable.not_not]

end LayerPage.StyleRule
