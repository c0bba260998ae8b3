/-
What is never written out, and what it leaves in the style sheet. An
element without a tag is left out of the markup. If its name gives no
identifier either, it is made with an empty selector, and a rule without a
selector is not written. But classes are looked at for every element: one
that is named for the class `note` is selected anew, by `.note`.

# When a rule is left

Nothing is merged into a layer without identifier, so the attributes of its
element are those that its own name sets
(`attribute?_elementOf_nameless`), and the name says whether it is selected
by a class (`classSelector?_isSome_iff`). As every element has something to
declare (`exists_declared`), its rule is in the style sheet exactly if it
is (`convert_leavesNoTrace_iff`). The rule of `unwrittenPage` is one, and it
styles a paragraph (`unwritten_leaves_trace`).
-/
import LayerPage.Proofs.Stylesheet
import LayerPage.Proofs.Selector

namespace LayerPage

variable {α : Type}

-- ================================================================ traces

/-- Texts joined without some of them are shorter by the length of these. -/
theorem Text.length_join_filter_ne {β : Type} [DecidableEq β] (f : β → String)
    (x : β) (l : List β) :
    (String.join (l.map f)).length
      = (String.join ((l.filter (· ≠ x)).map f)).length
        + l.count x * (f x).length := by
  induction l with
  | nil => simp
  | cons y rest ih =>
      rw [List.map_cons, String.join_cons, String.length_append, ih]
      by_cases hy : y = x
      · subst hy
        rw [List.filter_cons_of_neg (by simp), List.count_cons_self,
          Nat.succ_mul]
        omega
      · rw [List.filter_cons_of_pos (by simpa using hy),
          List.count_cons_of_ne hy, List.map_cons, String.join_cons,
          String.length_append]
        omega

namespace Page

/-- Whether the style sheet of a page is the one that it would have without
an element. -/
def LeavesNoTrace (page : Page α) (id : ElementId) : Prop :=
  page.stylesheet
    = String.join ((page.stylesheetOrder.filter (· ≠ id)).map page.ruleText)

/-- What the style sheet looks at leaves no trace exactly if its rule has no
text. -/
theorem leavesNoTrace_iff {page : Page α} {id : ElementId}
    (hid : id ∈ page.stylesheetOrder) :
    page.LeavesNoTrace id ↔ page.ruleText id = "" := by
  unfold LeavesNoTrace
  rw [stylesheet_eq_join]
  constructor
  · intro hsame
    have hlength :=
      Text.length_join_filter_ne page.ruleText id page.stylesheetOrder
    have hcount := List.count_pos_iff.2 hid
    rw [hsame, Nat.left_eq_add, Nat.mul_eq_zero] at hlength
    rcases hlength with hnone | hempty
    · omega
    · exact String.length_eq_zero_iff.1 hempty
  · intro hempty
    rw [Text.join_map_filter]
    intro other _ hother
    obtain rfl : other = id := by simpa using hother
    exact hempty

end Page

-- ================================================================= names

namespace LayerName

/-- Whether a name without identifier has its element selected by a class:
it sets the attribute `class` to something else than blanks, and does not
set `id`, unless to nothing. -/
def SelectsByClass (name : LayerName) : Prop :=
  (∀ identifier, name.entries.get? "attr:id" = some identifier →
      identifier = "")
    ∧ ∃ classes, name.entries.get? "attr:class" = some classes
      ∧ ∃ c ∈ classes.toList, Text.isBlank c = false

end LayerName

/-- An element is selected by a class if it has one, and no identifier. -/
theorem Element.classSelector?_isSome_iff {e : Element α} :
    e.classSelector?.isSome = true
      ↔ (∀ identifier, e.attribute? "id" = some identifier →
          identifier = "")
        ∧ ∃ classes, e.attribute? "class" = some classes
          ∧ ∃ c ∈ classes.toList, Text.isBlank c = false := by
  unfold classSelector?
  rw [← identifier?_eq_none_iff]
  cases e.identifier? with
  | some identifier => simp
  | none =>
      rw [if_neg (by simp)]
      cases e.attribute? "class" with
      | none => simp
      | some classes => simp [Text.firstWord?_isSome_iff]

/-- A selector by a class is not empty, as it has a dot in it. -/
theorem Element.ne_empty_of_classSelector? {e : Element α}
    {selector : String} (h : e.classSelector? = some selector) :
    selector ≠ "" := by
  obtain ⟨_, word, -, -, rfl⟩ := exists_word_of_classSelector? h
  intro hempty
  have hdot : '.' ∈ (e.tag ++ "." ++ String.ofList word).toList := by simp
  rw [hempty] at hdot
  cases hdot

variable [Layer α]

namespace Construction

/-- What lies in a layer without identifier is not merged into it. -/
theorem absorbed_of_nameless {root : α} {below : Forest α} {o : Origin α}
    (ho : o ∈ (rootOutline root below).labels)
    (hname : (Reference.nameOf (elementOf Metadata.builtin o).layer).identifier
      = "") : o.absorbed = [] := by
  obtain ⟨layer, inside, -, hlineage⟩ := tree_of_mem_rootOutline ho
  obtain ⟨rfl, habsorbed⟩ := List.cons.inj hlineage
  have hcontracts : ∀ child ∈ o.absorbed,
      Reference.Contracts o.layer child := by
    intro child hchild
    rw [habsorbed] at hchild
    simpa using (List.mem_filter.1 hchild).2
  -- all that an element was made from has the same identifier
  have hmem := layer_absorbAll_mem Metadata.decorates_builtin o.absorbed
    (own Metadata.builtin o.layer)
  rw [(own_links Metadata.decorates_builtin o.layer).2.1] at hmem
  have howner : (Reference.nameOf o.layer).identifier = "" := by
    rcases List.mem_cons.1 hmem with hown | hchild
    · rw [elementOf, hown] at hname
      exact hname
    · exact (hcontracts _ hchild).2.2.1.trans hname
  cases hlist : o.absorbed with
  | nil => rfl
  | cons child rest =>
      obtain ⟨-, -, -, hne⟩ := hcontracts child (hlist ▸ List.mem_cons_self)
      exact absurd howner hne

/-- The attributes of a layer without identifier are those that its name
sets. -/
theorem attribute?_elementOf_nameless {o : Origin α}
    (habsorbed : o.absorbed = [])
    (hname : (Reference.nameOf o.layer).identifier = "") (k : String) :
    (elementOf Metadata.builtin o).attribute? k
      = (Reference.nameOf o.layer).entries.get? ("attr:" ++ k) := by
  have hnone : (SortedMap.empty : SortedMap String).get? k = none := rfl
  have hattributes : (elementOf Metadata.builtin o).attributes
      = SortedMap.insertAll ∅
        (Metadata.attributeEntries (Reference.nameOf o.layer).entries) := by
    rw [elementOf, habsorbed]
    refine (Reference.ownNode_describes o.layer).attributes.trans ?_
    show SortedMap.insertAll (if _ then _ else _) _ = _
    rw [if_pos (String.isEmpty_iff.2 hname)]
  rw [Element.attribute?, hattributes, SortedMap.get?_insertAll,
    Metadata.attributeEntries, Metadata.lookup_reverse_filterMap
      (fun _ => Iff.rfl) Metadata.attributeOf?_eq_some_iff]
  exact (congrArg _ hnone).trans Option.or_none

end Construction

-- =================================================== finished elements

namespace Conversion.ComesFrom

variable {conversion : Conversion α} {source : LayerDocument α} {body : α}
  {below : Forest α} {built : BuiltTree α}

/-- The style sheet looks at every element. -/
theorem mem_stylesheetOrder
    (h : conversion.ComesFrom source body below built) {id : ElementId}
    {e : Element α} (hget : conversion.page.tree.get? id = some e) :
    id ∈ conversion.page.stylesheetOrder := by
  rw [h.order_eq_ids, ElementTree.mem_ids_iff]
  exact ElementTree.get?_isSome_iff.1 ⟨e, hget⟩

/-- Every element that is not absorbed has something to declare: the root
its margin, and all others their width. -/
theorem exists_declared (h : conversion.ComesFrom source body below built)
    {id : ElementId} {e : Element α}
    (hget : conversion.page.tree.get? id = some e)
    (hattached : e.detached = false) :
    ∃ k, (e.style.get? k).isSome = true := by
  by_cases hroot : id = conversion.page.root
  · refine ⟨"margin", ?_⟩
    have hbound : id.index < built.tree.size := by
      rw [← h.restyled.size]
      exact ElementTree.get?_isSome_iff.1 ⟨e, hget⟩
    -- the margin of the root stays through layout and heuristics
    have hreset : (built.reset.valueOf? id "margin").isSome = true := by
      have hset : (Layout.latest? [⟨built.root, "margin", "0px"⟩,
          ⟨built.root, "padding", "0px"⟩] built.root "margin").isSome
          = true :=
        Layout.latest?_isSome_of_mem (w := ⟨_, "margin", _⟩)
          List.mem_cons_self
      rw [BuiltTree.reset, Converter.modifyStyle_resetRoot,
        Layout.isSome_valueOf?_carryOut hbound, hroot, h.root, hset,
        Bool.true_or]
    have hlaid : (built.laidOut.valueOf? id "margin").isSome = true := by
      have hsize := built.restyled_reset.size
      rw [BuiltTree.laidOut,
        Layout.isSome_valueOf?_carryOut (by rw [hsize]; exact hbound),
        hreset, Bool.or_true]
    have hvalue : (conversion.page.tree.valueOf? id "margin").isSome
        = true := by
      have hsize := (built.restyled_laidOut.trans
        (Heuristic.restyled_selectAll _ built.visits)).size
      rw [h.tree,
        Layout.isSome_valueOf?_carryOut (by rw [hsize]; exact hbound),
        Heuristic.valueOf?_selectAll, hlaid, Bool.or_true]
    rwa [ElementTree.valueOf?, hget] at hvalue
  · exact ⟨"width",
      h.followsGeometry.isSome_width hget hattached hroot⟩

/-- An element without identifier has the attributes that the name of its
layer sets, and is selected by a class or by its tag. -/
theorem of_nameless (h : conversion.ComesFrom source body below built)
    {id : ElementId} {e : Element α}
    (hget : conversion.page.tree.get? id = some e)
    (hattached : e.detached = false)
    (hname : (Reference.nameOf e.layer).identifier = "") :
    (∀ k, e.attribute? k
        = (Reference.nameOf e.layer).entries.get? ("attr:" ++ k))
      ∧ e.style.selector = e.classSelector?.getD e.tag := by
  obtain ⟨o, ho, -, ⟨_, _, _, hstep⟩, hselector⟩ :=
    h.exists_origin hget hattached
  have hlayer : e.layer
      = (Construction.elementOf Metadata.builtin o).layer := by
    rw [hstep.rule_only]
  have htag : e.tag = (Reference.nameOf o.layer).tag := by
    rw [hstep.rule_only]
    exact Construction.tag_elementOf o
  have hattributes : ∀ k, e.attribute? k
      = (Construction.elementOf Metadata.builtin o).attribute? k := by
    intro k
    rw [hstep.rule_only]
    rfl
  have habsorbed := Construction.absorbed_of_nameless ho (hlayer ▸ hname)
  have hown : e.layer = o.layer := by
    rw [hlayer, Construction.elementOf, habsorbed]
    exact (Construction.own_links Metadata.decorates_builtin o.layer).2.1
  rw [hown] at hname ⊢
  refine ⟨fun k => (hattributes k).trans
    (Construction.attribute?_elementOf_nameless habsorbed hname k), ?_⟩
  rw [hselector, Construction.selector_elementOf, if_pos hname, htag]

end Conversion.ComesFrom

-- ========================================================== no trace

/-- An element that is never written out, and whose name gives no
identifier, leaves no trace in the style sheet exactly if its name does not
select it by a class. Otherwise its rule is written, and is for everything
that has the first of its classes. -/
theorem convert_leavesNoTrace_iff {source : LayerDocument α}
    {conversion : Conversion α}
    (h : Converter.convert {} source = .ok conversion) {id : ElementId}
    {e : Element α} (hget : conversion.page.tree.get? id = some e)
    (hattached : e.detached = false) (htag : e.tag = "")
    (hname : (Reference.nameOf e.layer).identifier = "") :
    (conversion.page.LeavesNoTrace id
        ↔ ¬(Reference.nameOf e.layer).SelectsByClass)
      ∧ ((Reference.nameOf e.layer).SelectsByClass →
        ∃ classes word,
          (Reference.nameOf e.layer).entries.get? "attr:class" = some classes
            ∧ Text.IsWord word classes.toList
            ∧ e.style.selector = "." ++ String.ofList word
            ∧ conversion.page.ruleText id = e.style.toCss
            ∧ e.style.toCss ≠ "") := by
  obtain ⟨body, below, built, hfrom⟩ := Conversion.exists_comesFrom h
  obtain ⟨hattributes, hselector⟩ :=
    hfrom.of_nameless hget hattached hname
  obtain ⟨k, hdeclared⟩ := hfrom.exists_declared hget hattached
  have hrule : conversion.page.ruleText id = e.style.toCss :=
    Page.ruleText_of_get? hget
  have hclass : (Reference.nameOf e.layer).SelectsByClass
      ↔ e.classSelector?.isSome = true := by
    rw [Element.classSelector?_isSome_iff, hattributes, hattributes]
    rfl
  -- with nothing but a class to select it, the rule is written for the
  -- class
  have hwritten : (Reference.nameOf e.layer).SelectsByClass
      ↔ e.style.toCss ≠ "" := by
    rw [hclass, ne_eq, StyleRule.toCss_eq_empty_iff hdeclared, hselector]
    cases hsome : e.classSelector? with
    | none => simp [htag]
    | some selector => simpa using Element.ne_empty_of_classSelector? hsome
  constructor
  · rw [Page.leavesNoTrace_iff (hfrom.mem_stylesheetOrder hget), hrule,
      hwritten, not_ne_iff]
  · intro hby
    obtain ⟨selector, hsome⟩ := Option.isSome_iff_exists.1 (hclass.1 hby)
    obtain ⟨classes, word, hclasses, hword, hbyWord⟩ :=
      Element.exists_word_of_classSelector? hsome
    refine ⟨classes, word, (hattributes "class").symm.trans hclasses, hword,
      ?_, hrule, hwritten.1 hby⟩
    rw [hselector, hsome, Option.getD_some, hbyWord, htag,
      String.empty_append]

/-- A page with a paragraph of a class, and in it a layer that is never
written out and is named for the same class. -/
def unwrittenPage : ManifestLayer where
  name := "<body>"
  bounds := ⟨0, 0, 100, 200⟩
  kind := .normal
  pixels := .solid ⟨255, 255, 255, 255⟩
  children :=
    [{ ManifestLayer.solid "<p>[attr:class=\"note\"]" ⟨0, 10, 100, 50⟩
          ⟨0, 0, 0, 255⟩ with
        children :=
          [.solid "<>[attr:class=\"note\",css:color=\"red\"]"
            ⟨0, 20, 100, 30⟩ ⟨255, 0, 0, 255⟩] }]

/-- The rule that this layer leaves in the style sheet. -/
def unwrittenRule : String :=
  "\t.note \x7b\n\t\tbackground: rgb(255,0,0);\n\t\tcolor: red;\n"
    ++ "\t\theight: 30px;\n\t\tmargin-left: auto;\n"
    ++ "\t\tmargin-right: auto;\n\t\twidth: 100px;\n\t\x7d\n\n"

/-- What is known of the conversion of that page. -/
theorem convert_unwrittenPage :
    ∃ conversion, Converter.convert {} (.ofList [unwrittenPage])
        = .ok conversion
      ∧ conversion.page.body
        = "<body>\n\t<p class=\"note\">\n\t</p>\n</body>\n"
      ∧ conversion.page.ruleText ⟨2⟩ = unwrittenRule
      ∧ ∃ e, conversion.page.tree.get? ⟨2⟩ = some e ∧ e.detached = false
        ∧ e.tag = "" ∧ (Reference.nameOf e.layer).identifier = "" := by
  have hrun : (Converter.convert {} (.ofList [unwrittenPage])).toOption.map
      (fun conversion => (conversion.page.body,
        conversion.page.ruleText ⟨2⟩,
        (conversion.page.tree.get? ⟨2⟩).map fun e =>
          (e.detached, e.tag, (Reference.nameOf e.layer).identifier)))
      = some ("<body>\n\t<p class=\"note\">\n\t</p>\n</body>\n",
        unwrittenRule,
        some (false, "", "")) := by
    decide +kernel
  obtain ⟨conversion, hconvert, hknown⟩ := Converter.exists_conversion hrun
  rw [Prod.mk.injEq, Prod.mk.injEq] at hknown
  obtain ⟨hbody, hrule, helement⟩ := hknown
  obtain ⟨e, hget, hfields⟩ := Option.map_eq_some_iff.1 helement
  rw [Prod.mk.injEq, Prod.mk.injEq] at hfields
  exact ⟨conversion, hconvert, hbody, hrule, e, hget, hfields⟩

/-- The layer of that page leaves a trace. -/
theorem unwrittenPage_leavesNoTrace_iff :
    ∃ conversion, Converter.convert {} (.ofList [unwrittenPage])
        = .ok conversion
      ∧ ∃ e, conversion.page.tree.get? ⟨2⟩ = some e ∧ e.detached = false
        ∧ e.tag = "" ∧ (Reference.nameOf e.layer).identifier = ""
        ∧ (conversion.page.LeavesNoTrace ⟨2⟩
          ↔ ¬(Reference.nameOf e.layer).SelectsByClass)
        ∧ ((Reference.nameOf e.layer).SelectsByClass →
          ∃ classes word,
            (Reference.nameOf e.layer).entries.get? "attr:class"
                = some classes
              ∧ Text.IsWord word classes.toList
              ∧ e.style.selector = "." ++ String.ofList word
              ∧ conversion.page.ruleText ⟨2⟩ = e.style.toCss
              ∧ e.style.toCss ≠ "") := by
  obtain ⟨conversion, hconvert, -, -, e, hget, hattached, htag, hname⟩ :=
    convert_unwrittenPage
  exact ⟨conversion, hconvert, e, hget, hattached, htag, hname,
    convert_leavesNoTrace_iff hconvert hget hattached htag hname⟩

/-- Its rule is in the style sheet and colours the paragraph, which has that
class, while it is not in the body itself. -/
theorem unwritten_leaves_trace :
    ∃ conversion, Converter.convert {} (.ofList [unwrittenPage])
        = .ok conversion
      ∧ conversion.page.body
        = "<body>\n\t<p class=\"note\">\n\t</p>\n</body>\n"
      ∧ (∃ e, conversion.page.tree.get? ⟨2⟩ = some e ∧ e.detached = false
        ∧ e.tag = "" ∧ (Reference.nameOf e.layer).identifier = "")
      ∧ conversion.page.ruleText ⟨2⟩ = unwrittenRule
      ∧ ¬conversion.page.LeavesNoTrace ⟨2⟩ := by
  obtain ⟨conversion, hconvert, hbody, hrule, e, hget, helement⟩ :=
    convert_unwrittenPage
  obtain ⟨_, _, _, hfrom⟩ := Conversion.exists_comesFrom hconvert
  refine ⟨conversion, hconvert, hbody, ⟨e, hget, helement⟩, hrule, ?_⟩
  rw [Page.leavesNoTrace_iff (hfrom.mem_stylesheetOrder hget), hrule]
  decide

end LayerPage
