/-
Where the embedded style sheet of a page ends. A reader of the page takes
the first `</style>` for the end of it, wherever that comes from; so the
page is read as it was meant only if none is written before its own.

# What can hold an end tag

The style sheet is laid out with blanks, line ends, colons, semicolons and
braces, none of which is in `</style>`, so an end tag in it lies within a
selector, the name of a property, or a value (`endsStyle_stylesheet_iff`).
What is inferred is free of `<`, and so are tags and identifiers. That
leaves what the names of layers give: properties, their values, and the
class an element is selected by. None of them is escaped, as titles and
attributes are (`convert_closesStyle_iff`).
-/
import LayerPage.Proofs.Inferred
import LayerPage.Proofs.Markup.Escape
import LayerPage.Proofs.Occurrence
import LayerPage.Proofs.Selector

namespace LayerPage

namespace Text

-- ============================================================== end tags

/-- The end tag of a style block. -/
def styleEnd : List Char := ['<', '/', 's', 't', 'y', 'l', 'e', '>']

/-- Whether there is an end tag in a text. -/
def EndsStyle (cs : List Char) : Prop :=
  styleEnd <:+: cs

theorem endsStyle_append_cons {front back : List Char} {c : Char}
    (hc : c ∉ styleEnd) :
    EndsStyle (front ++ c :: back) ↔ EndsStyle front ∨ EndsStyle back :=
  isInfix_append_cons_iff hc

theorem not_endsStyle_nil : ¬EndsStyle [] := by
  intro h
  cases List.infix_nil.1 h

theorem endsStyle_cons {back : List Char} {c : Char} (hc : c ∉ styleEnd) :
    EndsStyle (c :: back) ↔ EndsStyle back := by
  rw [← List.nil_append (c :: back), endsStyle_append_cons hc,
    or_iff_right not_endsStyle_nil]

/-- End tags start with an angle bracket. -/
theorem not_endsStyle_of_free {cs : List Char} (h : '<' ∉ cs) :
    ¬EndsStyle cs :=
  fun hends => h (hends.subset (by decide))

/-- A text without an angle bracket holds no beginning of an end tag, so
what is behind it decides. -/
theorem endsStyle_append_of_free {front back : List Char}
    (h : '<' ∉ front) : EndsStyle (front ++ back) ↔ EndsStyle back := by
  induction front with
  | nil => rfl
  | cons c front ih =>
      rw [List.mem_cons, not_or] at h
      rw [← ih h.2]
      refine List.infix_cons_iff.trans (or_iff_right ?_)
      intro hstart
      exact h.1 (List.cons_prefix_cons.1 hstart).1

/-- An end tag goes on with a slash. -/
theorem endsStyle_cons_cons {back : List Char} {c d : Char} (hd : d ≠ '/') :
    EndsStyle (c :: d :: back) ↔ EndsStyle (d :: back) := by
  refine List.infix_cons_iff.trans (or_iff_right ?_)
  intro hstart
  have hsecond := (List.cons_prefix_cons.1 hstart).2
  exact hd (List.cons_prefix_cons.1 hsecond).1.symm

/-- There is no end tag in a start tag. -/
theorem not_endsStyle_of_tail {cs : List Char}
    (h : cs[1]? ≠ some '/' ∧ '<' ∉ cs.tail) : ¬EndsStyle cs := by
  obtain ⟨hsecond, hfree⟩ := h
  cases cs with
  | nil => exact not_endsStyle_nil
  | cons c rest =>
      cases rest with
      | nil =>
          intro h
          have hle : 8 ≤ 1 := h.length_le
          omega
      | cons d rest =>
          have hd : d ≠ '/' := fun h => hsecond (congrArg some h)
          rw [endsStyle_cons_cons hd]
          exact not_endsStyle_of_free hfree

/-- In lines there are the end tags of each line. -/
theorem endsStyle_flatten_iff {lines : List (List Char)}
    (h : ∀ line ∈ lines, ∃ front, line = front ++ ['\n']) :
    EndsStyle lines.flatten ↔ ∃ line ∈ lines, EndsStyle line := by
  induction lines with
  | nil => simpa using not_endsStyle_nil
  | cons line rest ih =>
      obtain ⟨front, rfl⟩ := h line List.mem_cons_self
      have hend : '\n' ∉ styleEnd := by decide
      rw [List.flatten_cons, List.append_assoc, List.singleton_append,
        endsStyle_append_cons hend,
        ih fun other hother => h other (List.mem_cons_of_mem _ hother)]
      simp only [List.mem_cons, or_and_right, exists_or, exists_eq_left,
        endsStyle_append_cons hend, not_endsStyle_nil, or_false]

end Text

open Text (styleEnd EndsStyle endsStyle_append_cons endsStyle_cons
  not_endsStyle_nil)

-- ================================================================= rules

namespace StyleRule

/-- A declaration is written with two tabs in front, a colon after the
property and a semicolon at the end. -/
theorem toList_declarationLine (property value : String) :
    (declarationLine property value).toList
      = '\t' :: '\t' :: (property.toList ++ ':' :: ' ' ::
        (value.toList ++ ';' :: ['\n'])) := by
  simp [declarationLine]

/-- A declaration ends the style element only if its property or its value
does. What is written around them cannot be a part of the end tag. -/
theorem endsStyle_declarationLine (property value : String) :
    EndsStyle (declarationLine property value).toList
      ↔ EndsStyle property.toList ∨ EndsStyle value.toList := by
  have htab : '\t' ∉ styleEnd := by decide
  have hcolon : ':' ∉ styleEnd := by decide
  have hblank : ' ' ∉ styleEnd := by decide
  have hsemicolon : ';' ∉ styleEnd := by decide
  have hline : '\n' ∉ styleEnd := by decide
  rw [toList_declarationLine, endsStyle_cons htab, endsStyle_cons htab,
    endsStyle_append_cons hcolon, endsStyle_cons hblank,
    endsStyle_append_cons hsemicolon, endsStyle_cons hline,
    or_iff_left not_endsStyle_nil]

/-- The lines of the declarations of a rule. -/
def lines (rule : StyleRule) : List (List Char) :=
  rule.declarations.toList.map fun entry =>
    (declarationLine entry.1 entry.2.value).toList

/-- A rule which is written is its selector, its lines between braces, and
an empty line. -/
theorem toList_toCss {rule : StyleRule} (h : rule.isWritten = true) :
    rule.toCss.toList
      = '\t' :: (rule.selector.toList ++ ' ' :: '\x7b' :: '\n' ::
        (rule.lines.flatten ++ '\t' :: '\x7d' :: '\n' :: ['\n'])) := by
  unfold toCss lines
  rw [if_pos h]
  simp [String.toList_join, List.flatMap_def, Function.comp_def]

/-- Whether there is an end tag in the selector of a rule or in one of its
declarations. -/
def HoldsStyleEnd (rule : StyleRule) : Prop :=
  EndsStyle rule.selector.toList
    ∨ ∃ property value, rule.get? property = some value
      ∧ (EndsStyle property.toList ∨ EndsStyle value.toList)

/-- In the text of a rule there are the end tags of its selector and of its
declarations. -/
theorem endsStyle_toCss_iff {rule : StyleRule}
    (h : rule.isWritten = true) :
    EndsStyle rule.toCss.toList ↔ rule.HoldsStyleEnd := by
  have htab : '\t' ∉ styleEnd := by decide
  have hblank : ' ' ∉ styleEnd := by decide
  have hopen : '\x7b' ∉ styleEnd := by decide
  have hclose : '\x7d' ∉ styleEnd := by decide
  have hline : '\n' ∉ styleEnd := by decide
  -- a line ends with a character which is not in the end tag
  have hlines : EndsStyle rule.lines.flatten
      ↔ ∃ property value, rule.get? property = some value
        ∧ (EndsStyle property.toList ∨ EndsStyle value.toList) := by
    rw [Text.endsStyle_flatten_iff]
    · constructor
      · rintro ⟨line, hmem, hends⟩
        obtain ⟨⟨property, declaration⟩, hentry, rfl⟩ := List.mem_map.1 hmem
        rw [SortedMap.mem_toList_iff] at hentry
        refine ⟨property, declaration.value, ?_,
          (endsStyle_declarationLine ..).1 hends⟩
        rw [get?, hentry, Option.map_some]
      · rintro ⟨property, value, hget, hends⟩
        obtain ⟨declaration, hentry, rfl⟩ := Option.map_eq_some_iff.1 hget
        refine ⟨_, List.mem_map.2
          ⟨_, SortedMap.mem_toList_iff.2 hentry, rfl⟩, ?_⟩
        exact (endsStyle_declarationLine ..).2 hends
    · intro line hmem
      obtain ⟨⟨property, declaration⟩, -, rfl⟩ := List.mem_map.1 hmem
      refine ⟨'\t' :: '\t' :: (property.toList ++ ':' :: ' ' ::
        (declaration.value.toList ++ [';'])), ?_⟩
      rw [toList_declarationLine]
      simp
  rw [toList_toCss h, endsStyle_cons htab, endsStyle_append_cons hblank,
    endsStyle_cons hopen, endsStyle_cons hline, endsStyle_append_cons htab,
    endsStyle_cons hclose, endsStyle_cons hline, endsStyle_cons hline,
    or_iff_left not_endsStyle_nil, hlines, HoldsStyleEnd]

end StyleRule

-- ================================================================= pages

variable {α : Type}

namespace Page

/-- The text of a page up to its style sheet. -/
def head (page : Page α) : String :=
  doctype ++ "\n"
    ++ "<html xmlns=\"http://www.w3.org/1999/xhtml\">\n"
    ++ "<head>\n"
    ++ "\t<title>" ++ Markup.escape page.title ++ "</title>\n"
    ++ "\t<style type=\"text/css\">\n"

/-- Whether the first end tag of a style block on a page is the one after
the style sheet: what comes before it is the head of the page, the style
sheet, and a tab. -/
def ClosesStyle (page : Page α) : Prop :=
  Text.IsFirstAfter (page.head ++ page.stylesheet ++ "\t").toList
    "</style>".toList page.render.toList

/-- In a style sheet there are the end tags of its rules. -/
theorem endsStyle_stylesheet_iff (page : Page α) :
    EndsStyle page.stylesheet.toList
      ↔ ∃ rule ∈ page.rules, rule.HoldsStyleEnd := by
  have hwritten : ∀ rule ∈ page.rules, rule.isWritten = true :=
    fun rule hrule => (List.mem_filter.1 hrule).2
  have htext : page.stylesheet.toList
      = (page.rules.map fun rule => rule.toCss.toList).flatten := by
    rw [stylesheet, String.toList_join, List.flatMap_def, List.map_map]
    rfl
  rw [htext, Text.endsStyle_flatten_iff]
  · constructor
    · rintro ⟨line, hmem, hends⟩
      obtain ⟨rule, hrule, rfl⟩ := List.mem_map.1 hmem
      exact ⟨rule, hrule,
        (StyleRule.endsStyle_toCss_iff (hwritten rule hrule)).1 hends⟩
    · rintro ⟨rule, hrule, hends⟩
      exact ⟨_, List.mem_map_of_mem hrule,
        (StyleRule.endsStyle_toCss_iff (hwritten rule hrule)).2 hends⟩
  · intro line hmem
    obtain ⟨rule, hrule, rfl⟩ := List.mem_map.1 hmem
    refine ⟨'\t' :: (rule.selector.toList ++ ' ' :: '\x7b' :: '\n' ::
      (rule.lines.flatten ++ '\t' :: '\x7d' :: ['\n'])), ?_⟩
    rw [StyleRule.toList_toCss (hwritten rule hrule)]
    simp

/-- There is no end tag in the head of a page, whatever its title. -/
theorem not_endsStyle_head (page : Page α) :
    ¬EndsStyle page.head.toList := by
  have htitle : '<' ∉ Markup.escapeChars page.title.toList :=
    Markup.not_mem_escapeChars (by simp) _
  have htext : page.head.toList = doctype.toList ++ '\n' ::
      ("<html xmlns=\"http://www.w3.org/1999/xhtml\">".toList ++ '\n' ::
      ("<head>".toList ++ '\n' :: '\t' ::
      ('<' :: 't' :: ['i', 't', 'l', 'e', '>']
        ++ (Markup.escapeChars page.title.toList
          ++ ['<', '/', 't', 'i', 't', 'l', 'e', '>']) ++ '\n' :: '\t' ::
      ("<style type=\"text/css\">".toList ++ ['\n'])))) := by
    simp [head, Markup.escape]
  have hline : '\n' ∉ styleEnd := by decide
  have htab : '\t' ∉ styleEnd := by decide
  -- the tag after the title goes on like none that ends a style block
  have hclose : ¬EndsStyle ['<', '/', 't', 'i', 't', 'l', 'e', '>'] := by
    intro h
    exact absurd (h.eq_of_length rfl) (by decide)
  rw [htext]
  simp only [endsStyle_append_cons hline, endsStyle_cons htab, not_or]
  refine ⟨?_, ?_, ?_, ?_, ?_, not_endsStyle_nil⟩
  · exact Text.not_endsStyle_of_tail (by decide +kernel)
  · exact Text.not_endsStyle_of_tail (by decide +kernel)
  · exact Text.not_endsStyle_of_tail (by decide +kernel)
  · have hfree : '<' ∉ 't' :: ['i', 't', 'l', 'e', '>']
        ++ Markup.escapeChars page.title.toList := by
      rw [List.mem_append, not_or]
      exact ⟨by decide, htitle⟩
    rw [List.cons_append, List.cons_append,
      Text.endsStyle_cons_cons (by decide)]
    rw [← Text.endsStyle_append_of_free hfree, List.append_assoc] at hclose
    exact hclose
  · exact Text.not_endsStyle_of_tail (by decide +kernel)

/-- A page closes its style block itself if there is no end tag in its
style sheet. -/
theorem closesStyle_iff_not_endsStyle (page : Page α) :
    page.ClosesStyle ↔ ¬EndsStyle page.stylesheet.toList := by
  have hmark : "</style>".toList = styleEnd := by simp [styleEnd]
  have hrender : page.render.toList
      = page.head.toList ++ page.stylesheet.toList ++ ['\t'] ++ styleEnd
        ++ ("\n</head>\n" ++ page.body ++ "</html>").toList := by
    simp [render, head, styleEnd]
  have hbefore : (page.head ++ page.stylesheet ++ "\t").toList
      = page.head.toList ++ page.stylesheet.toList ++ ['\t'] := by simp
  obtain ⟨start, hhead⟩ : ∃ start, page.head.toList = start ++ ['\n'] := by
    refine ⟨(doctype ++ "\n"
      ++ "<html xmlns=\"http://www.w3.org/1999/xhtml\">\n" ++ "<head>\n"
      ++ "\t<title>" ++ Markup.escape page.title ++ "</title>\n"
      ++ "\t<style type=\"text/css\">").toList, ?_⟩
    simp [head]
  have hline : '\n' ∉ styleEnd := by decide
  have hstart := page.not_endsStyle_head
  rw [hhead, endsStyle_append_cons hline, not_or] at hstart
  rw [ClosesStyle, hmark, hrender, hbefore,
    Text.isFirstAfter_iff (by decide), hhead, List.append_assoc,
    List.singleton_append]
  exact not_congr ((endsStyle_append_cons hline).trans
    (or_iff_right hstart.1))

end Page

variable [Layer α]

-- ===================================================== what names can do

/-- Whether the names of its layers put an end tag into the rule of an
element: as the class it is selected by, or as a property that they pin or
the value of one. -/
def Element.TypesStyleEnd (e : Element α) : Prop :=
  (∃ selector, e.classSelector? = some selector
      ∧ EndsStyle selector.toList)
    ∨ ∃ property value, e.style.pin? property = some value
      ∧ (EndsStyle property.toList ∨ EndsStyle value.toList)

/-- No identifier and no tag has an angle bracket in it. -/
theorem Reference.not_mem_selector (layer : α) :
    '<' ∉ (if (nameOf layer).identifier = "" then (nameOf layer).tag
      else "#" ++ (nameOf layer).identifier).toList := by
  have hname := nameOf_isPlain layer
  split
  · intro hmem
    exact absurd (hname.tag '<' hmem) (by decide)
  · rw [String.toList_append, List.mem_append, not_or]
    refine ⟨by decide, fun hmem => ?_⟩
    exact absurd (hname.identifier '<' hmem) (by decide)

namespace Conversion.ComesFrom

variable {source : LayerDocument α} {conversion : Conversion α} {body : α}
  {below : Forest α} {built : BuiltTree α}

/-- The style sheet has the rules of the attached elements that have
something to write. -/
theorem mem_rules_iff (h : conversion.ComesFrom source body below built)
    {rule : StyleRule} :
    rule ∈ conversion.page.rules
      ↔ ∃ id e, conversion.page.tree.get? id = some e
        ∧ e.detached = false ∧ e.style.isWritten = true
        ∧ e.style = rule := by
  constructor
  · intro hmem
    obtain ⟨hmem, hwritten⟩ := List.mem_filter.1 hmem
    obtain ⟨id, -, hstyle⟩ := List.mem_filterMap.1 hmem
    obtain ⟨e, hget, rfl⟩ := Option.map_eq_some_iff.1 hstyle
    refine ⟨id, e, hget, ?_, hwritten, rfl⟩
    -- detached elements have nothing to write
    cases hd : e.detached with
    | false => rfl
    | true =>
        have hempty := (h.wellFormed.detached_empty id e hget hd).2.2.2
        rw [StyleRule.isWritten, hempty, Bool.not_true, Bool.and_false]
          at hwritten
        cases hwritten
  · rintro ⟨id, e, hget, -, hwritten, rfl⟩
    have hid : id ∈ conversion.page.stylesheetOrder := by
      rw [h.order, h.builtFrom.stylesheet, ElementTree.mem_ids_iff,
        ← h.restyled.size]
      exact ElementTree.get?_isSome_iff.1 ⟨e, hget⟩
    exact (Page.hasRule_of_isWritten hid hget hwritten).1

/-- The declarations of an attached element have the end tags of those that
are pinned. -/
theorem declares_styleEnd_iff
    (h : conversion.ComesFrom source body below built) {id : ElementId}
    {e : Element α} (hget : conversion.page.tree.get? id = some e)
    (hattached : e.detached = false) :
    (∃ property value, e.style.get? property = some value
        ∧ (EndsStyle property.toList ∨ EndsStyle value.toList))
      ↔ ∃ property value, e.style.pin? property = some value
        ∧ (EndsStyle property.toList ∨ EndsStyle value.toList) := by
  constructor
  · rintro ⟨property, value, hdeclared, hends⟩
    cases hpin : e.style.pin? property with
    | some pinned =>
        rw [(StyleRule.get?_of_pin? hpin).1] at hdeclared
        cases hdeclared
        exact ⟨property, value, hpin, hends⟩
    | none =>
        obtain ⟨hproperty, hvalue⟩ := h.infersPlain id e hget hattached
          property value (StyleRule.pin?_eq_none_iff.1 hpin) hdeclared
        rcases hends with hends | hends
        · exact absurd hends (Text.not_endsStyle_of_free hproperty)
        · exact absurd hends (Text.not_endsStyle_of_free hvalue)
  · rintro ⟨property, value, hpin, hends⟩
    exact ⟨property, value, (StyleRule.get?_of_pin? hpin).1, hends⟩

end Conversion.ComesFrom

/-- The selector of an attached element has the end tags of the class that
it is selected by. -/
theorem endsStyle_selector_iff {source : LayerDocument α}
    {conversion : Conversion α}
    (h : Converter.convert {} source = .ok conversion) {id : ElementId}
    {e : Element α} (hget : conversion.page.tree.get? id = some e)
    (hattached : e.detached = false) :
    EndsStyle e.style.selector.toList
      ↔ ∃ selector, e.classSelector? = some selector
        ∧ EndsStyle selector.toList := by
  obtain ⟨_, _, -, -, hselector⟩ := convert_selector h
  obtain ⟨layer, _, -, htag, hrule⟩ := hselector id e hget hattached
  rw [hrule, htag]
  cases e.classSelector? with
  | some selector => simp
  | none =>
      refine iff_of_false ?_ (by simp)
      exact Text.not_endsStyle_of_free (Reference.not_mem_selector layer)

/-- The style block of a page ends where the page ends it, exactly if no
name puts an end tag into a rule that is written. -/
theorem convert_closesStyle_iff {source : LayerDocument α}
    {conversion : Conversion α}
    (h : Converter.convert {} source = .ok conversion) :
    conversion.page.ClosesStyle
      ↔ ∀ id e, conversion.page.tree.get? id = some e →
        e.detached = false → e.style.isWritten = true →
        ¬e.TypesStyleEnd := by
  obtain ⟨body, below, built, hfrom⟩ := Conversion.exists_comesFrom h
  have hholds : ∀ id e, conversion.page.tree.get? id = some e →
      e.detached = false →
      (e.style.HoldsStyleEnd ↔ e.TypesStyleEnd) :=
    fun id e hget hattached => or_congr
      (endsStyle_selector_iff h hget hattached)
      (hfrom.declares_styleEnd_iff hget hattached)
  rw [Page.closesStyle_iff_not_endsStyle, Page.endsStyle_stylesheet_iff]
  constructor
  · intro hnone id e hget hattached hwritten htyped
    have hrule := hfrom.mem_rules_iff.2
      ⟨id, e, hget, hattached, hwritten, rfl⟩
    exact hnone ⟨e.style, hrule, (hholds id e hget hattached).2 htyped⟩
  · rintro hsafe ⟨rule, hmem, hends⟩
    obtain ⟨id, e, hget, hattached, hwritten, rfl⟩ :=
      hfrom.mem_rules_iff.1 hmem
    exact hsafe id e hget hattached hwritten
      ((hholds id e hget hattached).1 hends)

/-- The sample page. -/
theorem samplePage_closesStyle_iff :
    ∃ conversion, Converter.convert {} (.ofList [samplePage])
        = .ok conversion
      ∧ (conversion.page.ClosesStyle
        ↔ ∀ id e, conversion.page.tree.get? id = some e →
          e.detached = false → e.style.isWritten = true →
          ¬e.TypesStyleEnd) := by
  obtain ⟨conversion, hconvert⟩ : ∃ conversion,
    Converter.convert {} (.ofList [samplePage]) = .ok conversion :=
      ⟨_, rfl⟩
  exact ⟨conversion, hconvert, convert_closesStyle_iff hconvert⟩

/-- A page with a box whose name pins an end tag as a colour. -/
def unescapedPage : ManifestLayer where
  name := "<body>"
  bounds := ⟨0, 0, 100, 200⟩
  kind := .normal
  pixels := .solid ⟨255, 255, 255, 255⟩
  children :=
    [.solid "box[css:color=\"</style>\"]" ⟨0, 10, 100, 50⟩ ⟨0, 0, 0, 255⟩]

/-- The end tag is written as it stands, and ends the style block in front
of the declarations that follow it. -/
theorem unescaped_ends_style :
    ∃ conversion, Converter.convert {} (.ofList [unescapedPage])
        = .ok conversion
      ∧ (∃ before after, conversion.page.stylesheet
        = before ++ "\t\tcolor: </style>;\n" ++ after)
      ∧ ¬conversion.page.ClosesStyle := by
  have hrun : (Converter.convert {} (.ofList [unescapedPage])).toOption.map
      (fun conversion => conversion.page.stylesheet)
      = some ("\tbody \x7b\n\t\tbackground: rgb(255,255,255);\n"
          ++ "\t\tmargin: 0px;\n\t\tpadding: 0px;\n"
          ++ "\t\tpadding-top: 10px;\n\t\x7d\n\n"
          ++ "\t#box \x7b\n\t\tbackground: rgb(0,0,0);\n"
        ++ "\t\tcolor: </style>;\n"
        ++ ("\t\theight: 50px;\n\t\tmargin-left: auto;\n"
          ++ "\t\tmargin-right: auto;\n\t\twidth: 100px;\n"
          ++ "\t\x7d\n\n")) := by
    decide +kernel
  obtain ⟨conversion, hconvert, hsheet⟩ :=
    Converter.exists_conversion hrun
  refine ⟨conversion, hconvert, ⟨_, _, hsheet⟩, ?_⟩
  rw [Page.closesStyle_iff_not_endsStyle]
  refine fun hclosed => hclosed ?_
  have hline : EndsStyle "\t\tcolor: </style>;\n".toList :=
    ⟨"\t\tcolor: ".toList, ";\n".toList, by simp [styleEnd]⟩
  rw [hsheet, String.toList_append, String.toList_append]
  exact hline.trans (List.infix_append ..)

end LayerPage
