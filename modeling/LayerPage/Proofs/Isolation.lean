/-
The entries of a layer name do not get in each other's way. Each entry that
is applied has a place of its own, an attribute or a property, since no two
keys of a name say the same namespace and the same key within it; and an
entry that is refused has no place at all. So an element after all entries
is known place by place (`HasApplied`), whatever the order in which they
were applied, and whether or not refused ones were among them.

`HasApplied` looks at the map of entries alone, and says everything about
the element (`HasApplied.unique`): that the order does not count, and that
refused entries do not, is read off it.
-/
import Mathlib.Data.List.Forall2
import LayerPage.Proofs.Metadata

namespace LayerPage.Metadata

variable {α : Type}

-- ======================================================= applied entries

/-- Whether the builtin handlers apply an entry with a key: it sets an
attribute, or pins a property that has a name. -/
def IsApplied (raw : String) : Prop :=
  (∃ key, raw = "attr:" ++ key) ∨ ∃ key, key ≠ "" ∧ raw = "css:" ++ key

/-- An entry is applied if its space is `attr`, or if it is `css` and the
key is not empty. -/
theorem isApplied_iff {raw : String} :
    IsApplied raw
      ↔ ∃ space key, splitKey? raw = some (space, key)
        ∧ (space = "attr" ∨ space = "css" ∧ key ≠ "") := by
  constructor
  · rintro (⟨key, rfl⟩ | ⟨key, hkey, rfl⟩)
    · exact ⟨"attr", key, splitKey?_eq_some_iff.2 ⟨rfl, by decide⟩, .inl rfl⟩
    · exact ⟨"css", key, splitKey?_eq_some_iff.2 ⟨rfl, by decide⟩,
        .inr ⟨rfl, hkey⟩⟩
  · rintro ⟨space, key, hsplit, hspace⟩
    obtain ⟨rfl, -⟩ := splitKey?_eq_some_iff.1 hsplit
    rcases hspace with rfl | ⟨rfl, hkey⟩
    · exact .inl ⟨key, rfl⟩
    · exact .inr ⟨key, hkey, rfl⟩

/-- What is not refused is applied. -/
theorem refusal?_eq_none_iff (layerName : String) {raw : String} :
    refusal? layerName raw = none ↔ IsApplied raw := by
  rw [isApplied_iff]
  unfold refusal?
  cases hsplit : splitKey? raw with
  | none =>
      rw [if_pos (splitKey?_eq_none_iff.1 hsplit)]
      simp
  | some split =>
      obtain ⟨space, key⟩ := split
      obtain ⟨hcolon, hspace⟩ := takeWhile_of_splitKey? hsplit
      obtain ⟨hraw, -⟩ := splitKey?_eq_some_iff.1 hsplit
      rw [if_neg fun hfree => hfree hcolon, hspace]
      by_cases hknown : space = "attr" ∨ space = "css"
      · rw [if_neg fun h => hknown.elim h.1 h.2]
        rcases hknown with rfl | rfl
        · have hother : raw ≠ "css:" := by
            rintro rfl
            exact absurd (congrArg (·.toList.head?) hraw) (by simp)
          rw [if_neg hother]
          exact iff_of_true rfl ⟨"attr", key, rfl, .inl rfl⟩
        · have hempty : raw = "css:" ↔ key = "" := by
            rw [hraw]
            show "css" ++ ":" ++ key = "css" ++ ":" ++ "" ↔ key = ""
            exact String.append_right_inj ("css" ++ ":")
          by_cases hkey : key = ""
          · rw [if_pos (hempty.2 hkey)]
            simp [hkey]
          · rw [if_neg (hkey ∘ hempty.1)]
            exact iff_of_true rfl ⟨"css", key, rfl, .inr ⟨rfl, hkey⟩⟩
      · have hunknown : space ≠ "attr" ∧ space ≠ "css" := not_or.1 hknown
        rw [if_pos hunknown]
        simp [hunknown]

instance : DecidablePred IsApplied := fun _ =>
  decidable_of_iff (refusal? "" _ = none) (refusal?_eq_none_iff "")

/-- All warnings about entries carry the code of metadata and the name of
the layer. -/
theorem code_of_refusal? {layerName raw : String} {d : Diagnostic}
    (h : refusal? layerName raw = some d) :
    d.code = "strata::metadata" ∧ d.layer? = some layerName := by
  unfold refusal? at h
  simp only at h
  split at h
  · cases h
    exact ⟨rfl, rfl⟩
  · split at h
    · cases h
      exact ⟨rfl, rfl⟩
    · split at h
      · cases h
        exact ⟨rfl, rfl⟩
      · cases h

-- ========================================================= place by place

/-- Whether an element is another one with the entries of a map applied:
each of its attributes and declarations has the value of the entry for it,
if there is one, and is as it was otherwise. -/
structure HasApplied (entries : SortedMap String) (e e' : Element α) :
    Prop where
  attributes : ∀ k, e'.attribute? k
    = (entries.get? ("attr:" ++ k)).or (e.attribute? k)
  /-- What an entry declares is pinned. -/
  declarations : ∀ k, k ≠ "" → e'.style.declarations.get? k
    = ((entries.get? ("css:" ++ k)).map (⟨·, true⟩)).or
        (e.style.declarations.get? k)
  /-- No entry declares a property without a name. -/
  nameless : e'.style.declarations.get? "" = e.style.declarations.get? ""
  selector : e'.style.selector = e.style.selector
  /-- Tag, layer and links are as they were. -/
  decorated : e.Decorated e'

namespace HasApplied

variable {entries entries' : SortedMap String} {e e' e'' : Element α}

/-- This says all about the element. -/
theorem unique (h : HasApplied entries e e')
    (h' : HasApplied entries e e'') : e' = e'' := by
  have hattributes : e'.attributes = e''.attributes := by
    apply SortedMap.ext_get?
    intro k
    exact (h.attributes k).trans (h'.attributes k).symm
  have hstyle : e'.style = e''.style := by
    apply StyleRule.ext_get? (h.selector.trans h'.selector.symm)
    intro k
    by_cases hk : k = ""
    · rw [hk, h.nameless, h'.nameless]
    · rw [h.declarations k hk, h'.declarations k hk]
  have hdecorated := h.decorated
  have hdecorated' := h'.decorated
  unfold Element.Decorated at hdecorated hdecorated'
  rw [hdecorated, hdecorated', hattributes, hstyle]

/-- Only the entries that are applied count. -/
theorem congr (h : HasApplied entries e e')
    (hsame : ∀ raw, IsApplied raw → entries'.get? raw = entries.get? raw) :
    HasApplied entries' e e' := by
  refine { h with attributes := ?_, declarations := ?_ }
  · intro k
    rw [hsame _ (.inl ⟨k, rfl⟩)]
    exact h.attributes k
  · intro k hk
    rw [hsame _ (.inr ⟨k, hk, rfl⟩)]
    exact h.declarations k hk

end HasApplied

/-- What an entry pins has a name. -/
theorem ne_empty_of_propertyOf? {entry : String × String} {k v : String}
    (h : propertyOf? entry = some (k, v)) : k ≠ "" := by
  unfold propertyOf? at h
  split at h
  · split at h
    · next hnamed =>
      cases h
      rintro rfl
      exact absurd hnamed.2 (by decide)
    · cases h
  · cases h

/-- Entries have been applied when they have been entered one by one, in
whatever order. -/
theorem hasApplied_foldl {entries : SortedMap String}
    {l : List (String × String)}
    (hl : ∀ entry, entry ∈ l ↔ entry ∈ entries.toList) (e : Element α) :
    HasApplied entries e (l.foldl entered e) := by
  have hnameless : (l.filterMap propertyOf?).reverse.lookup "" = none := by
    rw [List.lookup_eq_none_iff]
    rintro ⟨k, v⟩ hmem
    obtain ⟨entry, -, hentry⟩ :=
      List.mem_filterMap.1 (List.mem_reverse.1 hmem)
    rw [bne_iff_ne]
    exact (ne_empty_of_propertyOf? hentry).symm
  rw [foldl_entered]
  refine
    { attributes := ?_, declarations := ?_, nameless := ?_
      selector := StyleRule.pinAll_selector ..
      decorated := rfl }
  · intro k
    refine (SortedMap.get?_insertAll ..).trans ?_
    rw [lookup_reverse_filterMap hl attributeOf?_eq_some_iff]
    rfl
  · intro k hk
    refine (StyleRule.declarations_pinAll ..).trans ?_
    rw [lookup_reverse_filterMap hl (propertyOf?_eq_some_iff hk)]
  · refine (StyleRule.declarations_pinAll ..).trans ?_
    rw [hnameless]
    rfl

variable [Layer α]

/-- Applying entries enters them one by one. -/
theorem apply_fst_builtin (e : Element α) (entries : SortedMap String) :
    (apply builtin e entries).1 = entries.toList.foldl entered e := by
  rw [apply_fst]
  congr 1
  funext applied entry
  exact applyEntry_builtin e.layerName applied entry.1 entry.2

theorem apply_singleton (e : Element α) (entry : String × String) :
    (apply builtin e (.ofList [entry])).1 = entered e entry :=
  apply_fst_builtin e _

/-- The entries of a map that are applied, as a map. -/
theorem get?_filter_isApplied (entries : SortedMap String) {raw : String}
    (hraw : IsApplied raw) :
    (SortedMap.ofList
        (entries.toList.filter fun entry => IsApplied entry.1)).get? raw
      = entries.get? raw := by
  have hempty : (SortedMap.empty : SortedMap String).get? raw = none := rfl
  rw [SortedMap.ofList, SortedMap.get?_insertAll, hempty, Option.or_none]
  apply SortedMap.lookup_eq_of_mem_iff
  intro v
  rw [List.mem_reverse, List.mem_filter, SortedMap.mem_toList_iff]
  simp [hraw]

/-- The warnings about some keys are about those that are refused, one about
each. -/
theorem forall₂_refusal? (layerName : String) (keys : List String) :
    List.Forall₂ (fun raw d => refusal? layerName raw = some d)
      (keys.filter fun raw => ¬IsApplied raw)
      (keys.filterMap (refusal? layerName)) := by
  induction keys with
  | nil => exact .nil
  | cons raw rest ih =>
      cases hrefusal : refusal? layerName raw with
      | none =>
          have happlied := (refusal?_eq_none_iff layerName).1 hrefusal
          rw [List.filterMap_cons_none hrefusal,
            List.filter_cons_of_neg (by simpa using happlied)]
          exact ih
      | some d =>
          have hrefused : ¬IsApplied raw := by
            rw [← refusal?_eq_none_iff layerName, hrefusal]
            exact Option.some_ne_none d
          rw [List.filterMap_cons_some hrefusal,
            List.filter_cons_of_pos (by simpa using hrefused)]
          exact .cons hrefusal ih

-- ============================================================= isolation

/-- The builtin handlers apply the entries of a name each for itself. What
is under `attr` sets its attribute, what is under `css` with a name pins
its property, and nothing else changes; each other entry has one warning,
in key order, and no effect; and entries have the same effect without those
that are refused, and one by one in any order. -/
theorem apply_isolated (e : Element α) (entries : SortedMap String) :
    HasApplied entries e (apply builtin e entries).1
      ∧ List.Forall₂ (fun raw d =>
          refusal? (Layer.name e.layer) raw = some d
            ∧ d.code = "strata::metadata"
            ∧ d.layer? = some (Layer.name e.layer))
          (entries.keys.filter fun raw => ¬IsApplied raw)
          (apply builtin e entries).2
      ∧ apply builtin e (.ofList
          (entries.toList.filter fun entry => IsApplied entry.1))
        = ((apply builtin e entries).1, [])
      ∧ ∀ order : List (String × String), order.Perm entries.toList →
        order.foldl (fun applied entry =>
            (apply builtin applied (.ofList [entry])).1) e
          = (apply builtin e entries).1 := by
  have happlied : HasApplied entries e (apply builtin e entries).1 := by
    rw [apply_fst_builtin]
    exact hasApplied_foldl (fun _ => Iff.rfl) e
  refine ⟨happlied, ?_, ?_, ?_⟩
  · have hmet : (apply builtin e entries).2
        = entries.keys.filterMap (refusal? e.layerName) := by
      rw [apply_snd, SortedMap.keys, List.filterMap_map]
      rfl
    rw [hmet]
    refine (forall₂_refusal? e.layerName entries.keys).imp ?_
    intro raw d hrefusal
    exact ⟨hrefusal, code_of_refusal? hrefusal⟩
  · -- the entries that remain have the same values
    generalize hkept : SortedMap.ofList
      (entries.toList.filter fun entry => IsApplied entry.1) = kept
    have hget : ∀ raw, IsApplied raw → kept.get? raw = entries.get? raw := by
      intro raw hraw
      rw [← hkept]
      exact get?_filter_isApplied entries hraw
    apply Prod.ext
    · have hown : HasApplied kept e (apply builtin e kept).1 := by
        rw [apply_fst_builtin]
        exact hasApplied_foldl (fun _ => Iff.rfl) e
      exact hown.unique (happlied.congr hget)
    · rw [apply_snd, List.filterMap_eq_nil_iff]
      intro entry hmem
      rw [refusal?_eq_none_iff]
      rw [← hkept] at hmem
      rcases SortedMap.mem_insertAll hmem with hmem | hmem
      · simpa using (List.mem_filter.1 hmem).2
      · cases hmem
  · -- entering looks at who is there, not in which order
    intro order hperm
    have hfold : order.foldl (fun applied entry =>
        (apply builtin applied (.ofList [entry])).1) e
        = order.foldl entered e := by
      congr 1
      funext applied entry
      exact apply_singleton applied entry
    rw [hfold]
    exact (hasApplied_foldl (fun _ => hperm.mem_iff) e).unique happlied

end LayerPage.Metadata
