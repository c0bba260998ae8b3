/-
Rules over time. A history is any sequence of operations on a new rule,
and `after` is the rule that it leaves. Whatever the history, the rule is
a map from properties to values, each of which is pinned or not
(`after_isMap`), and what is pinned can be read off the history alone.

# Two collections

The same rule may be kept in two collections, one of all values and one
of the properties that were written by hand (`Twofold`). Then nothing in
the data says that a pin has a value, or that what is taken out is all
that was pinned: the operations have to keep the two in step. `Agrees` is
the relation that they preserve, one operation at a time
(`agrees_apply`), and it decides all that is ever answered.
-/
import LayerPage.Proofs.Style

namespace LayerPage.StyleRule

-- ========================================================== operations

/-- An operation on a rule. -/
inductive Operation
  | set (property value : String)
  | pin (property value : String)
  | infer (property value : String)
  | select (selector : String)
  /-- Take the pinned declarations out, and leave the rule empty. -/
  | takePins

/-- What an operation answers. -/
inductive Answer
  | done
  /-- Whether an inferred value was written. -/
  | inferred (written : Bool)
  | pins (taken : List (String × String))

/-- Carry out an operation. -/
def apply (rule : StyleRule) : Operation → Answer × StyleRule
  | .set property value => (.done, rule.set property value)
  | .pin property value => (.done, rule.pin property value)
  | .infer property value =>
    match rule.infer? property value with
    | some next => (.inferred true, next)
    | none => (.inferred false, rule)
  | .select selector => (.done, rule.withSelector selector)
  | .takePins => (.pins rule.pinned, rule.cleared)

/-- Carry out operations one after another. -/
def applyAll (rule : StyleRule) (history : List Operation) : StyleRule :=
  history.foldl (fun rule op => (rule.apply op).2) rule

/-- The rule that a history leaves of a new one. -/
def after (selector : String) (history : List Operation) : StyleRule :=
  applyAll { selector } history

/-- Inferring what is pinned is refused. -/
theorem apply_infer_of_isPinned {rule : StyleRule} {property : String}
    (h : rule.isPinned property = true) (value : String) :
    rule.apply (.infer property value) = (.inferred false, rule) := by
  simp only [apply, infer?, if_pos h]

/-- Inferring what is free succeeds, and sets it. -/
theorem apply_infer_of_free {rule : StyleRule} {property : String}
    (h : rule.isPinned property = false) (value : String) :
    rule.apply (.infer property value)
      = (.inferred true, rule.set property value) := by
  simp only [apply, infer?, if_neg (Bool.eq_false_iff.1 h)]

-- ============================================================= entries

/-- The value of a property, and whether it is pinned. -/
def entry? (rule : StyleRule) (property : String) :
    Option (String × Bool) :=
  (rule.get? property).map fun value => (value, rule.isPinned property)

/-- What can be asked of a property is its value, and whether it
is pinned. -/
theorem entry?_eq (rule : StyleRule) (k : String) :
    rule.entry? k
      = (rule.declarations.get? k).map fun d => (d.value, d.pinned) := by
  unfold entry? get? isPinned
  cases rule.declarations.get? k with
  | none => rfl
  | some d => rfl

/-- A pinned entry is a pin. -/
theorem entry?_eq_pinned_iff {rule : StyleRule} {k v : String} :
    rule.entry? k = some (v, true) ↔ rule.pin? k = some v := by
  rw [pin?_eq_some_iff, entry?_eq, Option.map_eq_some_iff]
  constructor
  · rintro ⟨d, hd, heq⟩
    obtain ⟨rfl, hpinned⟩ := Prod.mk.inj heq
    rw [hd, ← hpinned]
  · intro hd
    exact ⟨_, hd, rfl⟩

/-- Whether one property was given an entry, and all else is as it was. -/
def Puts (rule next : StyleRule) (property : String)
    (entry : String × Bool) : Prop :=
  next.selector = rule.selector
    ∧ ∀ k, next.entry? k
      = if k = property then some entry else rule.entry? k

/-- Setting puts the value in its place and leaves the pin. -/
theorem puts_set (rule : StyleRule) (property value : String) :
    rule.Puts (rule.set property value) property
      (value, rule.isPinned property) := by
  refine ⟨rfl, fun k => ?_⟩
  rw [entry?_eq, entry?_eq, declarations_set]
  split
  · rfl
  · rfl

/-- Pinning puts value and pin in place. -/
theorem puts_pin (rule : StyleRule) (property value : String) :
    rule.Puts (rule.pin property value) property (value, true) := by
  refine ⟨rfl, fun k => ?_⟩
  rw [entry?_eq, entry?_eq, declarations_pin]
  split
  · rfl
  · rfl

-- ============================================================ the pins

/-- Pins are listed in the order of their properties. -/
theorem pinned_ascending (rule : StyleRule) :
    rule.pinned.Pairwise (·.1 < ·.1) := by
  refine rule.declarations.ascending.filterMap _ ?_
  rintro ⟨k, d⟩ ⟨k', d'⟩ hlt e he e' he'
  -- an entry keeps its key
  have hkey : ∀ {k : String} {d : Declaration} {e : String × String},
      (if d.pinned then some (k, d.value) else none) = some e →
        e.1 = k := by
    intro k d e h
    split at h
    · cases h
      rfl
    · cases h
  rw [hkey he, hkey he']
  exact hlt

/-- What an operation does to a pin: writing by hand makes one, and taking
the pins out ends all of them. -/
theorem isPinned_apply_iff {rule : StyleRule} {op : Operation}
    {k : String} :
    (rule.apply op).2.isPinned k = true
      ↔ (∃ value, op = .pin k value)
        ∨ op ≠ .takePins ∧ rule.isPinned k = true := by
  cases op with
  | set property value =>
      rw [show (rule.apply (.set property value)).2
        = rule.set property value from rfl, isPinned_set]
      simp
  | pin property value =>
      rw [show (rule.apply (.pin property value)).2
        = rule.pin property value from rfl, isPinned_pin]
      by_cases hk : k = property
      · simp [hk]
      · simp [hk, Ne.symm hk]
  | infer property value =>
      have hkeep : (rule.apply (.infer property value)).2.isPinned k
          = rule.isPinned k := by
        cases hpin : rule.isPinned property with
        | true => rw [apply_infer_of_isPinned hpin]
        | false => rw [apply_infer_of_free hpin, isPinned_set]
      simp [hkeep]
  | select selector => simp [apply, withSelector, isPinned]
  | takePins =>
      have hnone : rule.cleared.isPinned k = false := rfl
      simp [apply, hnone]

/-- Whether a history wrote a property by hand since it last took the pins
out. -/
def PinnedSince (k : String) (history : List Operation) : Prop :=
  ∃ earlier value later,
    history = earlier ++ .pin k value :: later ∧ .takePins ∉ later

/-- A property has been pinned since pins were taken if it was before, or
was just now. -/
theorem pinnedSince_cons_iff {k : String} {op : Operation}
    {history : List Operation} :
    PinnedSince k (op :: history)
      ↔ PinnedSince k history
        ∨ (∃ value, op = .pin k value) ∧ .takePins ∉ history := by
  constructor
  · rintro ⟨earlier, value, later, hsplit, hfree⟩
    cases earlier with
    | nil =>
        cases hsplit
        exact .inr ⟨⟨value, rfl⟩, hfree⟩
    | cons first earlier =>
        cases hsplit
        exact .inl ⟨earlier, value, later, rfl, hfree⟩
  · rintro (⟨earlier, value, later, rfl, hfree⟩ | ⟨⟨value, rfl⟩, hfree⟩)
    · exact ⟨op :: earlier, value, later, rfl, hfree⟩
    · exact ⟨[], value, history, rfl, hfree⟩

/-- Along a history a property is pinned by the last operation that has a
say, or else as it was at the start. -/
theorem isPinned_applyAll_iff {rule : StyleRule}
    {history : List Operation} {k : String} :
    (rule.applyAll history).isPinned k = true
      ↔ PinnedSince k history
        ∨ .takePins ∉ history ∧ rule.isPinned k = true := by
  induction history generalizing rule with
  | nil => simp [applyAll, PinnedSince]
  | cons op history ih =>
      have hstep : rule.applyAll (op :: history)
          = (rule.apply op).2.applyAll history := rfl
      rw [hstep, ih, isPinned_apply_iff, pinnedSince_cons_iff,
        List.mem_cons, not_or]
      grind

/-- A new rule has no pins. -/
theorem isPinned_after_iff {selector : String} {history : List Operation}
    {k : String} :
    (after selector history).isPinned k = true
      ↔ PinnedSince k history := by
  rw [after, isPinned_applyAll_iff]
  have hnone : isPinned { selector } k = false := rfl
  exact or_iff_left fun h => absurd h.2 (Bool.eq_false_iff.1 hnone)

-- ====================================================== one at a time

/-- What an operation answers and leaves: every write puts an entry, but an
inference for a pinned property does nothing and says so; what is taken
out are the pinned entries in the order of their properties, and nothing
but the selector is left. -/
def Operation.Acts (rule : StyleRule) :
    Operation → Answer × StyleRule → Prop
  | .set property value, (answer, next) =>
    answer = .done
      ∧ rule.Puts next property (value, rule.isPinned property)
  | .pin property value, (answer, next) =>
    answer = .done ∧ rule.Puts next property (value, true)
  | .infer property value, (answer, next) =>
    if rule.isPinned property then answer = .inferred false ∧ next = rule
    else answer = .inferred true ∧ rule.Puts next property (value, false)
  | .select selector, (answer, next) =>
    answer = .done ∧ next.selector = selector
      ∧ ∀ k, next.entry? k = rule.entry? k
  | .takePins, (answer, next) =>
    (∃ taken, answer = .pins taken ∧ taken.Pairwise (·.1 < ·.1)
        ∧ ∀ k v, (k, v) ∈ taken ↔ rule.entry? k = some (v, true))
      ∧ next.selector = rule.selector
      ∧ ∀ k, next.get? k = none ∧ next.isPinned k = false

/-- Each operation acts as it is meant to. -/
theorem acts_apply (rule : StyleRule) (op : Operation) :
    op.Acts rule (rule.apply op) := by
  cases op with
  | set property value => exact ⟨rfl, rule.puts_set property value⟩
  | pin property value => exact ⟨rfl, rule.puts_pin property value⟩
  | infer property value =>
      cases hpin : rule.isPinned property with
      | true =>
          rw [apply_infer_of_isPinned hpin]
          show if rule.isPinned property then _ else _
          rw [if_pos hpin]
          exact ⟨rfl, rfl⟩
      | false =>
          have hputs := rule.puts_set property value
          rw [hpin] at hputs
          rw [apply_infer_of_free hpin]
          show if rule.isPinned property then _ else _
          rw [if_neg (Bool.eq_false_iff.1 hpin)]
          exact ⟨rfl, hputs⟩
  | select selector => exact ⟨rfl, rfl, fun _ => rfl⟩
  | takePins =>
      refine ⟨⟨_, rfl, rule.pinned_ascending, fun k v => ?_⟩, rfl,
        fun _ => ⟨rfl, rfl⟩⟩
      rw [mem_pinned_iff, entry?_eq_pinned_iff]

-- ============================================================= writing

/-- Whether a rule is written with one line for each of its properties, in
their order, or not at all if it has no selector or no property. -/
def ListsEach (rule : StyleRule) : Prop :=
  ∃ lines : List (String × String), lines.Pairwise (·.1 < ·.1)
    ∧ (∀ k v, (k, v) ∈ lines ↔ rule.get? k = some v)
    ∧ rule.toCss = if rule.selector = "" ∨ lines = [] then ""
      else "\t" ++ rule.selector ++ " \x7b\n"
        ++ String.join (lines.map fun (k, v) =>
          "\t\t" ++ k ++ ": " ++ v ++ ";\n")
        ++ "\t\x7d\n\n"

/-- Each declaration of a rule is listed, once and in order. -/
theorem listsEach (rule : StyleRule) : rule.ListsEach := by
  refine ⟨rule.declarations.toList.map fun entry =>
    (entry.1, entry.2.value), ?_, ?_, ?_⟩
  · rw [List.pairwise_map]
    exact rule.declarations.ascending
  · intro k v
    rw [List.mem_map, get?, Option.map_eq_some_iff]
    constructor
    · rintro ⟨⟨k, d⟩, hmem, heq⟩
      cases heq
      exact ⟨d, SortedMap.mem_toList_iff.1 hmem, rfl⟩
    · rintro ⟨d, hd, rfl⟩
      exact ⟨(k, d), SortedMap.mem_toList_iff.2 hd, rfl⟩
  · have hwritten : rule.isWritten = true ↔ ¬(rule.selector = ""
        ∨ rule.declarations.toList.map (fun entry =>
          (entry.1, entry.2.value)) = []) := by
      rw [isWritten_iff, not_or, List.map_eq_nil_iff, Bool.eq_false_iff]
      exact and_congr_right fun _ => not_congr List.isEmpty_iff
    unfold toCss
    by_cases h : rule.isWritten = true
    · rw [if_pos h, if_neg (hwritten.1 h), List.map_map]
      rfl
    · rw [if_neg h, if_pos (Decidable.not_not.1 (mt hwritten.2 h))]

/-- Nothing is written of a rule without a selector or without
properties. -/
theorem toCss_empty_iff {rule : StyleRule} :
    rule.toCss = "" ↔ rule.selector = "" ∨ ∀ k, rule.get? k = none := by
  rw [toCss_eq_empty_iff_isWritten, Bool.eq_false_iff, ne_eq, isWritten_iff,
    ← isEmpty_iff, Decidable.not_and_iff_or_not, ne_eq, Decidable.not_not,
    Bool.not_eq_false]

-- ===================================================== two collections

/-- A rule kept in two collections: its values, and the properties that
were written by hand. -/
structure Twofold where
  selector : String
  values : SortedMap String := ∅
  byHand : SortedMap Unit := ∅

namespace Twofold

/-- The values of what was written by hand. -/
def taken (rule : Twofold) : List (String × String) :=
  rule.byHand.keys.filterMap fun property =>
    (rule.values.get? property).map (property, ·)

/-- Carry out an operation on both collections. -/
def apply (rule : Twofold) : Operation → Answer × Twofold
  | .set property value =>
    (.done, { rule with values := rule.values.insert property value })
  | .pin property value =>
    (.done, { rule with
      values := rule.values.insert property value
      byHand := rule.byHand.insert property () })
  | .infer property value =>
    if rule.byHand.contains property then (.inferred false, rule)
    else
      (.inferred true,
        { rule with values := rule.values.insert property value })
  | .select selector => (.done, { rule with selector })
  | .takePins =>
    (.pins rule.taken, { selector := rule.selector })

/-- What a history leaves of a new rule. -/
def after (selector : String) (history : List Operation) : Twofold :=
  history.foldl (fun rule op => (rule.apply op).2) { selector }

/-- Whether two collections hold what a rule does. -/
structure Agrees (twofold : Twofold) (rule : StyleRule) : Prop where
  selector : twofold.selector = rule.selector
  values : ∀ k, twofold.values.get? k = rule.get? k
  byHand : ∀ k, twofold.byHand.contains k = rule.isPinned k

/-- What is taken from the two collections are the pins of the rule. -/
theorem mem_taken_iff {twofold : Twofold} {rule : StyleRule}
    (h : twofold.Agrees rule) {k v : String} :
    (k, v) ∈ twofold.taken ↔ rule.pin? k = some v := by
  have hkeys : k ∈ twofold.byHand.keys ↔ rule.isPinned k = true := by
    rw [SortedMap.mem_keys_iff, h.byHand]
  rw [taken, List.mem_filterMap, ← entry?_eq_pinned_iff, entry?, ← h.values]
  constructor
  · rintro ⟨property, hmem, hvalue⟩
    obtain ⟨value, hget, heq⟩ := Option.map_eq_some_iff.1 hvalue
    cases heq
    rw [hget, hkeys.1 hmem]
    rfl
  · intro hentry
    obtain ⟨value, hget, heq⟩ := Option.map_eq_some_iff.1 hentry
    obtain ⟨rfl, hpin⟩ := Prod.mk.inj heq
    exact ⟨k, hkeys.2 hpin, by rw [hget]; rfl⟩

/-- What is taken out of two collections is what is pinned, in the same
order. -/
theorem taken_eq {twofold : Twofold} {rule : StyleRule}
    (h : twofold.Agrees rule) : twofold.taken = rule.pinned := by
  have hascending : twofold.byHand.keys.Pairwise (· < ·) := by
    unfold SortedMap.keys
    rw [List.pairwise_map]
    exact twofold.byHand.ascending
  refine eq_of_ascending (fun _ _ => String.lt_asymm)
    (hascending.filterMap _ ?_) rule.pinned_ascending ?_
  · intro k k' hlt e he e' he'
    obtain ⟨_, -, rfl⟩ := Option.map_eq_some_iff.1 he
    obtain ⟨_, -, rfl⟩ := Option.map_eq_some_iff.1 he'
    exact hlt
  · rintro ⟨k, v⟩
    rw [mem_taken_iff h, mem_pinned_iff]

/-- An operation answers the same, and keeps the collections in step. -/
theorem agrees_apply {twofold : Twofold} {rule : StyleRule}
    (h : twofold.Agrees rule) (op : Operation) :
    (twofold.apply op).1 = (rule.apply op).1
      ∧ (twofold.apply op).2.Agrees (rule.apply op).2 := by
  have hinsert : ∀ property value k,
      (twofold.values.insert property value).get? k
        = if k = property then some value else rule.get? k := by
    intro property value k
    rw [SortedMap.get?_insert, h.values]
  have hset : ∀ property value,
      Agrees { twofold with values := twofold.values.insert property value }
        (rule.set property value) := by
    intro property value
    refine ⟨h.selector, fun k => ?_, fun k => ?_⟩
    · rw [get?_set]
      exact hinsert property value k
    · rw [isPinned_set]
      exact h.byHand k
  -- by what the operation does to the values and to the pins
  cases op with
  | set property value => exact ⟨rfl, hset property value⟩
  | pin property value =>
      refine ⟨rfl, h.selector, fun k => ?_, fun k => ?_⟩
      · exact (hinsert property value k).trans (get?_pin ..).symm
      · show (twofold.byHand.insert property ()).contains k
          = (rule.pin property value).isPinned k
        rw [isPinned_pin, ← h.byHand, SortedMap.contains,
          SortedMap.get?_insert]
        split
        · rfl
        · rfl
  | infer property value =>
      have hpin := h.byHand property
      cases hfree : rule.isPinned property with
      | true =>
          rw [apply_infer_of_isPinned hfree, apply,
            if_pos (hpin.trans hfree)]
          exact ⟨rfl, h⟩
      | false =>
          rw [apply_infer_of_free hfree, apply,
            if_neg (Bool.eq_false_iff.1 (hpin.trans hfree))]
          exact ⟨rfl, hset property value⟩
  | select selector => exact ⟨rfl, rfl, h.values, h.byHand⟩
  | takePins =>
      refine ⟨congrArg Answer.pins (taken_eq h), h.selector, ?_, ?_⟩
      · exact fun _ => rfl
      · exact fun _ => rfl

/-- The two collections are in step after every history. -/
theorem agrees_after (selector : String) (history : List Operation) :
    (after selector history).Agrees (StyleRule.after selector history) := by
  suffices general : ∀ (twofold : Twofold) (rule : StyleRule),
      twofold.Agrees rule →
        (history.foldl (fun rule op => (rule.apply op).2) twofold).Agrees
          (rule.applyAll history) by
    exact general { selector } { selector }
      ⟨rfl, fun _ => rfl, fun _ => rfl⟩
  induction history with
  | nil => exact fun _ _ h => h
  | cons op history ih =>
      intro twofold rule h
      exact ih _ _ (agrees_apply h op).2

end Twofold

-- ============================================================ histories

/-- What it is for a rule to be a map from properties to values, some of
them pinned, after a history. -/
structure IsMap (rule : StyleRule) (selector : String)
    (history : List Operation) : Prop where
  /-- What is pinned has a value. -/
  declared : ∀ k, rule.isPinned k = true → rule.contains k = true
  /-- What is pinned was written by hand since pins were last taken out. -/
  pinned_iff : ∀ k, rule.isPinned k = true ↔ PinnedSince k history
  /-- Any operation that is next does what it should. -/
  acts : ∀ op : Operation, op.Acts rule (rule.apply op)
  /-- What is written lists each property once, in order. -/
  lists : rule.ListsEach
  /-- Nothing is written of a rule only if it lacks a selector or declares
  nothing. -/
  empty_iff : rule.toCss = ""
    ↔ rule.selector = "" ∨ ∀ k, rule.get? k = none
  /-- Kept in two collections it would hold the same. -/
  agrees : (Twofold.after selector history).Agrees rule
  /-- And it would answer the same. -/
  answers : ∀ op, ((Twofold.after selector history).apply op).1
    = (rule.apply op).1

/-- After every history a rule is a map from properties to values, some of
them pinned. -/
theorem after_isMap (selector : String) (history : List Operation) :
    (after selector history).IsMap selector history where
  declared _ := contains_of_isPinned
  pinned_iff _ := isPinned_after_iff
  acts := acts_apply _
  lists := listsEach _
  empty_iff := toCss_empty_iff
  agrees := Twofold.agrees_after selector history
  answers op :=
    (Twofold.agrees_apply (Twofold.agrees_after selector history) op).1

end LayerPage.StyleRule
