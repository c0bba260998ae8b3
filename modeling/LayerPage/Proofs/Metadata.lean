/-
What the entries of a layer name do to the element made for it. A
registry decorates if its handlers change nothing but attributes and
style rule; then applying entries, however many, moves no element in the
tree (`decorated_apply`).

With the builtin handlers the outcome is known in full
(`apply_builtin`): the attributes are those of the `attr` entries laid
over the element's own, the `css` entries are pinned, and nothing else
changes. Entries that do neither are refused, each with one warning
(`apply_snd`).
-/
import LayerPage.Metadata
import LayerPage.Proofs.Blank
import LayerPage.Proofs.Style

namespace LayerPage

variable {α : Type}

-- ============================================================ decoration

/-- Two elements that differ at most in attributes and style rule. -/
def Element.Decorated (e e' : Element α) : Prop :=
  e' = { e with attributes := e'.attributes, style := e'.style }

theorem Element.Decorated.refl (e : Element α) : e.Decorated e := rfl

theorem Element.Decorated.trans {e₁ e₂ e₃ : Element α}
    (h₁ : e₁.Decorated e₂) (h₂ : e₂.Decorated e₃) : e₁.Decorated e₃ := by
  unfold Element.Decorated at h₁ h₂ ⊢
  rw [h₂, h₁]

/-- A decorated new element has its tag, no links, and is attached. -/
theorem Element.links_of_decorated_create {tag identifier : String} {layer : α}
    {e : Element α} (h : (Element.create tag identifier layer).Decorated e) :
    e.tag = tag ∧ e.layer = layer ∧ e.parent? = none ∧ e.children = []
      ∧ e.siblings = [] ∧ e.detached = false := by
  unfold Element.Decorated at h
  rw [h]
  unfold Element.create
  split
  · exact ⟨rfl, rfl, rfl, rfl, rfl, rfl⟩
  · exact ⟨rfl, rfl, rfl, rfl, rfl, rfl⟩

namespace Metadata

/-- Whether the handlers of a registry only set attributes and style
properties, also when they fail halfway: everything else about the element
stays. -/
def Decorates (registry : MetadataRegistry α) : Prop :=
  ∀ space handler, registry.get? space = some handler →
    ∀ (e : Element α) (key value : String),
      e.Decorated ((handler e key value).after e)

/-- An entry that has no handler changes nothing, and one that has changes
what the handler may. -/
theorem decorated_applyEntry {registry : MetadataRegistry α}
    (hreg : Decorates registry) (layerName : String) (e : Element α)
    (raw value : String) :
    e.Decorated (applyEntry registry layerName e raw value).1 := by
  unfold applyEntry
  simp only
  split
  · exact .refl e
  · next space key hkey =>
    cases hget : registry.get? space with
    | none => exact .refl e
    | some handler => exact hreg space handler hget e key value

/-- What is left of the element when its diagnostics are set aside: the
entries are applied one after another, those that fail as far as they
come. -/
theorem apply_fst [Layer α] (registry : MetadataRegistry α) (e : Element α)
    (entries : SortedMap String) :
    (apply registry e entries).1
      = entries.toList.foldl (fun applied entry =>
          (applyEntry registry e.layerName applied entry.1 entry.2).1) e := by
  unfold apply
  generalize e.layerName = name
  suffices general : ∀ (l : List (String × String)) (applied : Element α)
      (ds : List Diagnostic), (l.foldl _ (applied, ds)).1
        = l.foldl (fun applied entry =>
            (applyEntry registry name applied entry.1 entry.2).1) applied by
    exact general entries.toList e []
  intro l
  induction l with
  | nil => intro applied ds; rfl
  | cons entry rest ih =>
      intro applied ds
      rw [List.foldl_cons, List.foldl_cons]
      exact ih _ _

/-- No number of entries changes more than attributes and style. -/
theorem decorated_apply [Layer α] {registry : MetadataRegistry α}
    (hreg : Decorates registry) (e : Element α)
    (entries : SortedMap String) :
    e.Decorated (apply registry e entries).1 := by
  rw [apply_fst]
  generalize e.layerName = name
  suffices general : ∀ (l : List (String × String)) (applied : Element α),
      e.Decorated applied →
      e.Decorated (l.foldl (fun applied entry =>
        (applyEntry registry name applied entry.1 entry.2).1) applied) by
    exact general entries.toList e (Element.Decorated.refl e)
  intro l
  induction l with
  | nil => intro applied h; exact h
  | cons entry rest ih =>
      intro applied h
      rw [List.foldl_cons]
      exact ih _ (h.trans (decorated_applyEntry hreg name applied _ _))

-- ======================================================== builtin handlers

/-- The registry knows the two spaces `css` and `attr`. -/
theorem get?_builtin (space : String) :
    (builtin : MetadataRegistry α).get? space
      = if space = "css" then some styleHandler
        else if space = "attr" then some attributeHandler else none := by
  unfold builtin SortedMap.ofList SortedMap.insertAll
  rw [List.foldl_cons, List.foldl_cons, List.foldl_nil,
    SortedMap.get?_insert, SortedMap.get?_insert]
  rfl

/-- The builtin handlers decorate: a property without a name is refused
before anything is changed. -/
theorem decorates_builtin : Decorates (builtin : MetadataRegistry α) := by
  intro space handler hget e key value
  rw [get?_builtin] at hget
  split at hget
  · cases hget
    unfold styleHandler
    split <;> rfl
  · split at hget
    · cases hget
      rfl
    · cases hget

/-- The attribute that an entry sets. -/
def attributeOf? (entry : String × String) : Option (String × String) :=
  match splitKey? entry.1 with
  | some (space, key) => if space = "attr" then some (key, entry.2) else none
  | none => none

/-- The style property that an entry pins, which must have a name. -/
def propertyOf? (entry : String × String) : Option (String × String) :=
  match splitKey? entry.1 with
  | some (space, key) =>
    if space = "css" ∧ key.isEmpty = false then some (key, entry.2) else none
  | none => none

/-- An element with one entry entered: its attribute set, its property
pinned. An entry that is refused does neither. -/
def entered (e : Element α) (entry : String × String) : Element α :=
  { e with
    attributes := e.attributes.insertAll (attributeOf? entry).toList
    style := e.style.pinAll (propertyOf? entry).toList }

/-- With the builtin handlers, applying an entry is entering it. -/
theorem applyEntry_builtin (layerName : String) (e : Element α)
    (raw value : String) :
    (applyEntry builtin layerName e raw value).1 = entered e (raw, value) := by
  unfold applyEntry entered attributeOf? propertyOf?
  cases splitKey? raw with
  | none => rfl
  | some split =>
      obtain ⟨space, key⟩ := split
      simp only [get?_builtin]
      by_cases hcss : space = "css"
      · have hattr : ¬space = "attr" := by
          rw [hcss]
          decide
        rw [if_pos hcss, if_neg hattr]
        simp only [styleHandler]
        -- a property without a name is not pinned
        cases hkey : key.isEmpty with
        | true =>
            simp [EntryOutcome.after, SortedMap.insertAll, StyleRule.pinAll]
        | false =>
            simp [EntryOutcome.after, hcss, SortedMap.insertAll,
              StyleRule.pinAll, Element.modifyStyle]
      · rw [if_neg hcss]
        by_cases hattr : space = "attr"
        · rw [if_pos hattr, if_pos hattr]
          simp [EntryOutcome.after, hcss, attributeHandler,
            SortedMap.insertAll, StyleRule.pinAll, Element.setAttribute]
        · rw [if_neg hattr, if_neg hattr]
          simp [hcss, SortedMap.insertAll, StyleRule.pinAll]

/-- The attributes that the entries of a name set, in key order. -/
def attributeEntries (entries : SortedMap String) : List (String × String) :=
  entries.toList.filterMap attributeOf?

/-- The style properties that the entries of a name pin, in key order. -/
def styleEntries (entries : SortedMap String) : List (String × String) :=
  entries.toList.filterMap propertyOf?

/-- Entering entries one after the other inserts the attributes among them
and pins the properties. -/
theorem foldl_entered (e : Element α) (l : List (String × String)) :
    l.foldl entered e
      = { e with
          attributes := e.attributes.insertAll (l.filterMap attributeOf?)
          style := e.style.pinAll (l.filterMap propertyOf?) } := by
  induction l generalizing e with
  | nil => rfl
  | cons entry rest ih =>
      have hcons : ∀ f : String × String → Option (String × String),
          (entry :: rest).filterMap f
            = (f entry).toList ++ rest.filterMap f := by
        intro f
        rw [List.filterMap_cons]
        cases f entry with
        | none => rfl
        | some x => rfl
      rw [List.foldl_cons, ih, hcons, hcons, SortedMap.insertAll_append,
        StyleRule.pinAll_append]
      rfl

/-- The builtin handlers set the attributes and pin the properties of all
entries, and change nothing else. -/
theorem apply_builtin [Layer α] (e : Element α)
    (entries : SortedMap String) :
    (apply builtin e entries).1
      = { e with
          attributes := e.attributes.insertAll (attributeEntries entries)
          style := e.style.pinAll (styleEntries entries) } := by
  rw [attributeEntries, styleEntries, ← foldl_entered, apply_fst]
  congr 1
  funext applied entry
  exact applyEntry_builtin e.layerName applied entry.1 entry.2

-- ======================================================= entries by key

/-- A key is split at its first colon. -/
theorem splitKey?_eq_some_iff {raw space key : String} :
    splitKey? raw = some (space, key)
      ↔ raw = space ++ ":" ++ key ∧ ':' ∉ space.toList := by
  unfold splitKey?
  rw [Option.map_eq_some_iff]
  constructor
  · rintro ⟨⟨before, after⟩, hsplit, h⟩
    cases h
    obtain ⟨hraw, hfree⟩ := Text.splitAt?_eq_some_iff.1 hsplit
    constructor
    · apply String.toList_injective
      rw [hraw]
      simp
    · rw [String.toList_ofList]
      exact hfree
  · rintro ⟨hraw, hfree⟩
    refine ⟨(space.toList, key.toList), ?_, by simp⟩
    rw [Text.splitAt?_eq_some_iff]
    refine ⟨?_, hfree⟩
    rw [hraw]
    simp

/-- The entries that pin a property are those under its `css` key. -/
theorem propertyOf?_eq_some_iff {raw value k v : String} (hk : k ≠ "") :
    propertyOf? (raw, value) = some (k, v)
      ↔ raw = "css:" ++ k ∧ value = v := by
  have hcss : splitKey? ("css:" ++ k) = some ("css", k) := by
    rw [splitKey?_eq_some_iff]
    exact ⟨rfl, by decide⟩
  unfold propertyOf?
  constructor
  · intro h
    cases hsplit : splitKey? raw with
    | none => rw [hsplit] at h; cases h
    | some split =>
        obtain ⟨space, key⟩ := split
        rw [hsplit] at h
        simp only at h
        split at h
        · next hentry =>
          cases h
          obtain ⟨rfl, -⟩ := hentry
          exact ⟨(splitKey?_eq_some_iff.1 hsplit).1, rfl⟩
        · cases h
  · rintro ⟨rfl, rfl⟩
    have hnamed : k.isEmpty = false := by
      rw [Bool.eq_false_iff]
      intro hempty
      exact hk (String.isEmpty_iff.1 hempty)
    rw [hcss]
    exact if_pos ⟨rfl, hnamed⟩

/-- The entries that set an attribute are those under its `attr` key. -/
theorem attributeOf?_eq_some_iff {raw value k v : String} :
    attributeOf? (raw, value) = some (k, v)
      ↔ raw = "attr:" ++ k ∧ value = v := by
  have hattr : splitKey? ("attr:" ++ k) = some ("attr", k) := by
    rw [splitKey?_eq_some_iff]
    exact ⟨rfl, by decide⟩
  unfold attributeOf?
  constructor
  · intro h
    cases hsplit : splitKey? raw with
    | none => rw [hsplit] at h; cases h
    | some split =>
        obtain ⟨space, key⟩ := split
        rw [hsplit] at h
        simp only at h
        split at h
        · next hspace =>
          cases h
          subst hspace
          exact ⟨(splitKey?_eq_some_iff.1 hsplit).1, rfl⟩
        · cases h
  · rintro ⟨rfl, rfl⟩
    rw [hattr]
    exact if_pos rfl

/-- If the entries under one key alone write to a place, then what is
written there last, in whatever order, is the value of that key. -/
theorem lookup_reverse_filterMap {entries : SortedMap String}
    {l : List (String × String)}
    (hl : ∀ entry, entry ∈ l ↔ entry ∈ entries.toList)
    {f : String × String → Option (String × String)} {k key : String}
    (hf : ∀ {raw value v},
      f (raw, value) = some (k, v) ↔ raw = key ∧ value = v) :
    (l.filterMap f).reverse.lookup k = entries.get? key := by
  apply SortedMap.lookup_eq_of_mem_iff
  intro v
  rw [List.mem_reverse, List.mem_filterMap, ← SortedMap.mem_toList_iff]
  constructor
  · rintro ⟨⟨raw, value⟩, hmem, hentry⟩
    obtain ⟨rfl, rfl⟩ := hf.1 hentry
    exact (hl _).1 hmem
  · intro hmem
    exact ⟨_, (hl _).2 hmem, hf.2 ⟨rfl, rfl⟩⟩

/-- The last pin on a property is the entry under `css:` and that
property. -/
theorem lookup_reverse_styleEntries (entries : SortedMap String)
    {k : String} (hk : k ≠ "") :
    (styleEntries entries).reverse.lookup k
      = entries.get? ("css:" ++ k) :=
  lookup_reverse_filterMap (fun _ => Iff.rfl) (propertyOf?_eq_some_iff hk)

-- ============================================================= refusals

/-- The warning about an entry of a layer name, if it is refused: it has no
namespace, or one without a handler, or a property without a name. -/
def refusal? (layerName raw : String) : Option Diagnostic :=
  let space := String.ofList (raw.toList.takeWhile (· != ':'))
  if ':' ∉ raw.toList then
    some { code := "strata::metadata"
           message := "attribute '" ++ raw ++ "' has no namespace"
           layer? := some layerName
           help? := some "Use one of: attr, css" }
  else if space ≠ "attr" ∧ space ≠ "css" then
    some { code := "strata::metadata"
           message := "namespace '" ++ space ++ "' not found"
           layer? := some layerName
           help? := some "Use one of: attr, css" }
  else if raw = "css:" then
    some { code := "strata::metadata"
           message := "Metadata error: css: entry has no property name"
           layer? := some layerName }
  else none

/-- A key without a colon names no space. -/
theorem splitKey?_eq_none_iff {raw : String} :
    splitKey? raw = none ↔ ':' ∉ raw.toList := by
  rw [splitKey?, Option.map_eq_none_iff]
  induction raw.toList with
  | nil => simp [Text.splitAt?]
  | cons c rest ih =>
      rw [Text.splitAt?, List.mem_cons, eq_comm (a := ':')]
      by_cases hc : c = ':'
      · simp [hc]
      · rw [if_neg hc, Option.map_eq_none_iff, ih]
        simp [hc]

/-- The namespace of an entry is what comes before its first colon. -/
theorem takeWhile_of_splitKey? {raw space key : String}
    (h : splitKey? raw = some (space, key)) :
    ':' ∈ raw.toList
      ∧ String.ofList (raw.toList.takeWhile (· != ':')) = space := by
  obtain ⟨rfl, hfree⟩ := splitKey?_eq_some_iff.1 h
  have hchars : (space ++ ":" ++ key).toList
      = space.toList ++ ':' :: key.toList := by simp
  have hrun : ∀ c ∈ space.toList, (c != ':') = true := by
    intro c hc
    rw [bne_iff_ne]
    rintro rfl
    exact hfree hc
  rw [hchars, Text.takeWhile_run hrun (Text.stops_cons.2 (by decide)),
    String.ofList_toList]
  exact ⟨List.mem_append_right _ List.mem_cons_self, rfl⟩

/-- An entry pins a property without a name if nothing follows `css:`. -/
theorem eq_css_iff_of_splitKey? {raw space key : String}
    (h : splitKey? raw = some (space, key)) :
    raw = "css:" ↔ space = "css" ∧ key = "" := by
  constructor
  · intro hraw
    have hsplit : splitKey? "css:" = some ("css", "") :=
      splitKey?_eq_some_iff.2 ⟨rfl, by decide⟩
    rw [hraw, hsplit] at h
    cases h
    exact ⟨rfl, rfl⟩
  · intro hparts
    rw [(splitKey?_eq_some_iff.1 h).1, hparts.1, hparts.2]
    rfl

/-- The builtin handlers refuse an entry for one of these reasons, and for
no other. -/
theorem applyEntry_builtin_snd (layerName : String) (e : Element α)
    (raw value : String) :
    (applyEntry builtin layerName e raw value).2
      = refusal? layerName raw := by
  symm
  have hadvice : advice (builtin : MetadataRegistry α)
      = "Use one of: attr, css" := rfl
  unfold refusal? applyEntry
  simp only [hadvice]
  -- no colon, an empty property, or an unknown space
  cases hsplit : splitKey? raw with
  | none =>
      rw [if_pos (splitKey?_eq_none_iff.1 hsplit)]
      rfl
  | some split =>
      obtain ⟨space, key⟩ := split
      obtain ⟨hcolon, hspace⟩ := takeWhile_of_splitKey? hsplit
      have hnameless := eq_css_iff_of_splitKey? hsplit
      rw [if_neg fun hfree => hfree hcolon, hspace]
      simp only [get?_builtin]
      by_cases hcss : space = "css"
      · subst hcss
        rw [if_neg (by decide), if_pos rfl]
        simp only [styleHandler]
        by_cases hempty : key = ""
        · rw [if_pos (hnameless.2 ⟨rfl, hempty⟩),
            if_pos (String.isEmpty_iff.2 hempty)]
          rfl
        · rw [if_neg fun hraw => hempty (hnameless.1 hraw).2,
            if_neg (hempty ∘ String.isEmpty_iff.1)]
          rfl
      · rw [if_neg hcss]
        by_cases hattr : space = "attr"
        · subst hattr
          rw [if_neg (by decide),
            if_neg fun hraw => hcss (hnameless.1 hraw).1, if_pos rfl]
          rfl
        · rw [if_pos ⟨hattr, hcss⟩, if_neg hattr]
          rfl

/-- The warnings about the entries of a name, in key order. -/
theorem apply_snd [Layer α] (e : Element α) (entries : SortedMap String) :
    (apply builtin e entries).2
      = entries.toList.filterMap (refusal? e.layerName ·.1) := by
  unfold apply
  generalize e.layerName = name
  suffices general : ∀ (l : List (String × String)) (applied : Element α)
      (met : List Diagnostic), (l.foldl _ (applied, met)).2
        = met ++ l.filterMap (refusal? name ·.1) by
    exact general entries.toList e []
  intro l
  induction l with
  | nil => exact fun _ met => (List.append_nil met).symm
  | cons entry rest ih =>
      intro applied met
      obtain ⟨raw, value⟩ := entry
      rw [List.foldl_cons, List.filterMap_cons,
        ← applyEntry_builtin_snd name applied raw value]
      simp only
      obtain ⟨applied', diagnostic?⟩ :=
        applyEntry builtin name applied raw value
      rw [ih]
      cases diagnostic? with
      | none => rw [Option.toList_none, List.append_nil]
      | some diagnostic =>
          rw [Option.toList_some, List.append_assoc, List.singleton_append]

end Metadata

end LayerPage
