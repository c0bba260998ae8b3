/-
Property names as CSS reads them: without the white space around them, and
with no difference between capital and small ASCII letters. A rule keeps
its declarations by the text of their names, so it may declare a property
twice under two texts that are read alike. Then the declaration that is
written last counts, and that may be the inferred one.

When this happens is settled by the pins alone
(`convert_declaresOnce_iff`). Inferred names are few and each is spelt the
way it is read (`inferredNames`), so two declarations of one property
always involve a pin that is spelt in another way than it is read.
-/
import LayerPage.Proofs.Stylesheet
import LayerPage.Proofs.StyleBlock

namespace LayerPage

variable {α : Type}

-- ================================================================= names

namespace PropertyName

/-- White space of CSS. -/
def isSpace (c : Char) : Bool :=
  c == ' ' || c == '\t' || c == '\n' || c == '\r' || c == '\x0c'

/-- A property name as CSS reads it. -/
def read (name : String) : List Char :=
  ((name.toList.dropWhile isSpace).reverse.dropWhile isSpace).reverse.map
    Char.toLower

/-- Whether a name is spelt the way it is read. -/
def IsCanonical (name : String) : Prop :=
  read name = name.toList

instance (name : String) : Decidable (IsCanonical name) :=
  inferInstanceAs (Decidable (_ = _))

/-- Names that are read alike are the same, if both are spelt the way they
are read. -/
theorem IsCanonical.eq_of_read_eq {name other : String}
    (h : IsCanonical name) (hother : IsCanonical other)
    (hread : read name = read other) : name = other := by
  apply String.toList_inj.1
  rw [← h, ← hother, hread]

end PropertyName

open PropertyName (IsCanonical)

-- ================================================================= rules

namespace StyleRule

/-- Whether a rule declares no property twice. -/
def DeclaresOnce (rule : StyleRule) : Prop :=
  (rule.declarations.keys.map PropertyName.read).Nodup

instance (rule : StyleRule) : Decidable rule.DeclaresOnce :=
  inferInstanceAs (Decidable (List.Nodup _))

/-- A rule declares a property twice if two of its names are read alike. -/
theorem declaresOnce_iff {rule : StyleRule} :
    rule.DeclaresOnce
      ↔ ∀ k k', rule.contains k = true → rule.contains k' = true →
        PropertyName.read k' = PropertyName.read k → k' = k := by
  unfold DeclaresOnce
  constructor
  · intro hnodup k k' hk hk' hread
    exact List.inj_on_of_nodup_map hnodup (mem_keys_iff.2 hk')
      (mem_keys_iff.2 hk) hread
  · intro hsame
    refine rule.keys_nodup.map_on ?_
    intro k' hk' k hk hread
    exact hsame k k' (mem_keys_iff.1 hk) (mem_keys_iff.1 hk') hread

/-- Whether a rule has a pin that is spelt in another way than it is read,
and that is read like another declaration of the rule. -/
def HasMisspeltPin (rule : StyleRule) : Prop :=
  ∃ k k', rule.isPinned k = true ∧ ¬IsCanonical k
    ∧ rule.contains k' = true ∧ k' ≠ k
    ∧ PropertyName.read k' = PropertyName.read k

/-- If all that is inferred is spelt the way it is read, only a misspelt pin
makes a rule declare a property twice. -/
theorem declaresOnce_iff_not_hasMisspeltPin {rule : StyleRule}
    (h : ∀ k, rule.contains k = true → rule.isPinned k = false →
      IsCanonical k) : rule.DeclaresOnce ↔ ¬rule.HasMisspeltPin := by
  rw [declaresOnce_iff]
  constructor
  · intro hsame hpin
    obtain ⟨k, k', hpinned, -, hk', hne, hread⟩ := hpin
    exact hne (hsame k k' (contains_of_isPinned hpinned) hk' hread)
  · intro hnone k k' hk hk' hread
    by_cases hne : k' = k
    · exact hne
    · exfalso
      apply hnone
      by_cases hcanonical : IsCanonical k
      · -- then the other one is spelt differently, and is a pin
        have hother : ¬IsCanonical k' := by
          intro hcanonical'
          exact hne (hcanonical'.eq_of_read_eq hcanonical hread)
        cases hpinned : rule.isPinned k' with
        | false => exact absurd (h k' hk' hpinned) hother
        | true =>
            exact ⟨k', k, hpinned, hother, hk, Ne.symm hne, hread.symm⟩
      · cases hpinned : rule.isPinned k with
        | false => exact absurd (h k hk hpinned) hcanonical
        | true => exact ⟨k, k', hpinned, hcanonical, hk', hne, hread⟩

end StyleRule

-- ============================================================= inference

variable [Layer α]

/-- The properties that are inferred anywhere. -/
def inferredNames : List String :=
  "margin" :: "padding" :: "overflow" :: Layout.properties

/-- Every inferred property has a name spelt the way it is read. -/
theorem isCanonical_of_mem_inferredNames :
    ∀ k ∈ inferredNames, IsCanonical k := by
  decide

/-- On a finished page, what is declared without a pin is one of the
properties that are inferred. -/
theorem Conversion.ComesFrom.mem_inferredNames {conversion : Conversion α}
    {source : LayerDocument α} {body : α} {below : Forest α}
    {built : BuiltTree α}
    (h : conversion.ComesFrom source body below built) {id : ElementId}
    {e : Element α} (hget : conversion.page.tree.get? id = some e)
    (hattached : e.detached = false) {k : String}
    (hdeclared : e.style.contains k = true)
    (hfree : e.style.isPinned k = false) : k ∈ inferredNames := by
  have hvalue : (conversion.page.tree.valueOf? id k).isSome = true := by
    rw [ElementTree.valueOf?, hget, Option.bind_some, StyleRule.get?,
      Option.isSome_map]
    exact hdeclared
  have hid : built.tree.isAttached id = true := by
    rw [← h.restyled.isAttached]
    exact ElementTree.isAttached_iff.2 ⟨e, hget, hattached⟩
  have hplain : conversion.page.tree.isPinned id k = false := by
    rw [ElementTree.isPinned, hget]
    exact hfree
  rw [h.restyled.isPinned] at hplain
  have hlt : id.index < built.reset.size := by
    obtain ⟨e₀, hget₀, -⟩ := ElementTree.isAttached_iff.1 hid
    rw [built.restyled_reset.size]
    exact ElementTree.get?_isSome_iff.1 ⟨e₀, hget₀⟩
  apply Decidable.byContradiction
  intro hnone
  have hne : ∀ other ∈ inferredNames, other ≠ k := by
    intro other hother heq
    rw [heq] at hother
    exact hnone hother
  -- no write is about another property, and the built tree has pins only
  have hunwritten : built.laidOut.valueOf? id k = none := by
    have hreset : built.reset.isPinned id k = false := by
      rw [built.restyled_reset.isPinned]
      exact hplain
    have hunknown : k ∉ Layout.properties := by
      intro hmem
      exact hne k (by simp [inferredNames, hmem]) rfl
    rw [BuiltTree.laidOut, Layout.valueOf?_carryOut hlt hreset,
      Layout.latest?_flatMap_eq_none fun u _ =>
        Layout.latest?_visit_of_not_mem _ u id hunknown,
      h.valueOf?_reset hid hplain (hne _ (by decide)) (hne _ (by decide))]
    rfl
  have hoverflow : k ≠ "overflow" := (hne _ (by decide)).symm
  rw [h.tree, Heuristic.valueOf?_hidings hoverflow,
    Heuristic.valueOf?_selectAll, hunwritten] at hvalue
  cases hvalue

/-- No rule of a page declares a property twice, exactly if no rule that is
written has a misspelt pin. -/
theorem convert_declaresOnce_iff {source : LayerDocument α}
    {conversion : Conversion α}
    (h : Converter.convert {} source = .ok conversion) :
    (∀ rule ∈ conversion.page.rules, rule.DeclaresOnce)
      ↔ ∀ id e, conversion.page.tree.get? id = some e →
        e.detached = false → e.style.isWritten = true →
        ¬e.style.HasMisspeltPin := by
  obtain ⟨body, below, built, hfrom⟩ := Conversion.exists_comesFrom h
  have honce : ∀ id e, conversion.page.tree.get? id = some e →
      e.detached = false →
      (e.style.DeclaresOnce ↔ ¬e.style.HasMisspeltPin) := by
    intro id e hget hattached
    apply StyleRule.declaresOnce_iff_not_hasMisspeltPin
    intro k hk hfree
    exact isCanonical_of_mem_inferredNames k
      (hfrom.mem_inferredNames hget hattached hk hfree)
  constructor
  · intro hrules id e hget hattached hwritten
    rw [← honce id e hget hattached]
    exact hrules _
      (hfrom.mem_rules_iff.2 ⟨id, e, hget, hattached, hwritten, rfl⟩)
  · intro hpins rule hrule
    obtain ⟨id, e, hget, hattached, hwritten, rfl⟩ :=
      hfrom.mem_rules_iff.1 hrule
    exact (honce id e hget hattached).2
      (hpins id e hget hattached hwritten)

/-- A page with a box of a name. -/
def boxPage (name : String) : ManifestLayer where
  name := "<body>"
  bounds := ⟨0, 0, 100, 200⟩
  kind := .normal
  pixels := .solid ⟨255, 255, 255, 255⟩
  children := [.solid name ⟨0, 10, 100, 50⟩ ⟨0, 0, 0, 255⟩]

/-- A width that is pinned the way it is read is the only one. -/
theorem boxPage_declaresOnce_iff :
    ∃ conversion, Converter.convert {}
        (.ofList [boxPage "box[css:width=\"5px\"]"]) = .ok conversion
      ∧ conversion.page.rules.map (·.declarations.keys)
        = [["background", "margin", "padding", "padding-top"],
          ["background", "height", "margin-left", "margin-right", "width"]]
      ∧ ((∀ rule ∈ conversion.page.rules, rule.DeclaresOnce)
        ↔ ∀ id e, conversion.page.tree.get? id = some e →
          e.detached = false → e.style.isWritten = true →
          ¬e.style.HasMisspeltPin) := by
  have hrun : (Converter.convert {}
      (.ofList [boxPage "box[css:width=\"5px\"]"])).toOption.map
        (fun conversion => conversion.page.rules.map (·.declarations.keys))
      = some [["background", "margin", "padding", "padding-top"],
        ["background", "height", "margin-left", "margin-right",
          "width"]] := by
    decide +kernel
  obtain ⟨conversion, hconvert, hkeys⟩ := Converter.exists_conversion hrun
  exact ⟨conversion, hconvert, hkeys, convert_declaresOnce_iff hconvert⟩

/-- After a blank it is another text: the width of the layer is declared as
well, further down in the same rule, and overrides the one that was
pinned. -/
theorem spaced_width_overridden :
    ∃ conversion, Converter.convert {}
        (.ofList [boxPage "box[css: width=\"5px\"]"]) = .ok conversion
      ∧ ∃ rule ∈ conversion.page.rules, ¬rule.DeclaresOnce
        ∧ ∃ between, rule.toCss
          = "\t#box \x7b\n" ++ "\t\t width: 5px;\n" ++ between
            ++ "\t\twidth: 100px;\n" ++ "\t\x7d\n\n" := by
  have hrun : (Converter.convert {}
      (.ofList [boxPage "box[css: width=\"5px\"]"])).toOption.map
        (fun conversion => conversion.page.rules[1]?.map fun rule =>
          (decide rule.DeclaresOnce, rule.toCss))
      = some (some (false, "\t#box \x7b\n" ++ "\t\t width: 5px;\n"
        ++ ("\t\tbackground: rgb(0,0,0);\n\t\theight: 50px;\n"
          ++ "\t\tmargin-left: auto;\n\t\tmargin-right: auto;\n")
        ++ "\t\twidth: 100px;\n" ++ "\t\x7d\n\n")) := by
    decide +kernel
  obtain ⟨conversion, hconvert, hrule⟩ := Converter.exists_conversion hrun
  obtain ⟨rule, hget, hpair⟩ := Option.map_eq_some_iff.1 hrule
  obtain ⟨htwice, htext⟩ := Prod.mk.inj hpair
  exact ⟨conversion, hconvert, rule, List.mem_of_getElem? hget,
    of_decide_eq_false htwice, _, htext⟩

end LayerPage
