/-
What a reader gets back from a page: its title, and the attributes of
everything that is written. A value is set between fixed texts, and the
text after it begins with a quote or an angle bracket. None of these is
left in an escaped text, so that the value ends where it was meant to, and
the entities in it stand for what was escaped (`isRead_escape`). The page
need not be one that was converted, and its names and remarks may be any
(`markup_decodable`).
-/
import LayerPage.Convert
import LayerPage.Manifest.Layer
import LayerPage.Proofs.Markup.Escape
import LayerPage.Proofs.Markup.Route

namespace LayerPage

variable {α : Type}

namespace Markup

-- ============================================================== reading

/-- The characters that end a value in quotes, or a text. -/
def breaks : List Char := ['"', '<', '>']

/-- Whether a value is read off the front of a text: what comes before the
next break stands for it, and from there the text goes on with a mark. -/
structure IsRead (text value mark : String) : Prop where
  value : unescape (text.toList.takeWhile (· ∉ breaks)) = value.toList
  ends : mark.toList <+: text.toList.dropWhile (· ∉ breaks)

/-- An escaped value is read up to the mark behind it. -/
theorem isRead_escape (value : String) {mark : String}
    (hmark : ∃ c ∈ breaks, ∃ tail, mark.toList = c :: tail)
    (rest : String) : IsRead (escape value ++ (mark ++ rest)) value mark := by
  obtain ⟨c, hc, tail, hmark⟩ := hmark
  have hstop : ¬decide (c ∉ breaks) = true := by simpa using hc
  have hpass : ∀ d ∈ escapeChars value.toList,
      decide (d ∉ breaks) = true := by
    intro d hd
    rw [decide_eq_true_iff]
    intro hbreak
    exact not_mem_escapeChars hbreak _ hd
  have htext : (escape value ++ (mark ++ rest)).toList
      = escapeChars value.toList ++ c :: (tail ++ rest.toList) := by
    rw [String.toList_append, String.toList_append, hmark, escape,
      String.toList_ofList, List.cons_append]
  constructor
  · rw [htext, List.takeWhile_append_of_pos hpass,
      List.takeWhile_cons_of_neg (p := fun c => decide (c ∉ breaks)) hstop,
      List.append_nil, unescape_escapeChars]
  · rw [htext, List.dropWhile_append_of_pos hpass,
      List.dropWhile_cons_of_neg (p := fun c => decide (c ∉ breaks)) hstop,
      hmark, ← List.cons_append]
    exact List.prefix_append ..

/-- Escaping is the replacement of each character by its entity. An escaped
text has no break in it and no ampersand that does not start an entity, and
what was escaped is read back from it. -/
structure IsReversible (text : String) : Prop where
  single : (escape text).toList = text.toList.flatMap entity
  unbroken : ∀ c ∈ breaks, c ∉ (escape text).toList
  started : ∀ front back, (escape text).toList = front ++ '&' :: back →
    ∃ written ∈ entities, written <+: '&' :: back
  decoded : unescape (escape text).toList = text.toList

/-- Every text can be decoded once it is escaped. -/
theorem isReversible (text : String) : IsReversible text := by
  have htext : (escape text).toList = escapeChars text.toList :=
    String.toList_ofList
  constructor
  · rw [htext, escapeChars_eq_flatMap]
  · intro c hc
    rw [htext]
    exact not_mem_escapeChars hc _
  · intro front back hsplit
    rw [htext] at hsplit
    exact exists_entity_of_escapeChars hsplit
  · rw [htext, unescape_escapeChars]

-- =========================================================== attributes

/-- The text of attributes. -/
def entriesText (entries : List (String × String)) : String :=
  String.join (entries.map fun (key, value) =>
    " " ++ key ++ "=\"" ++ escape value ++ "\"")

/-- The opening tag of an element, around the value of an attribute. -/
theorem Head.opening_eq {head : Head} {earlier later : List (String × String)}
    {key value : String}
    (h : head.attributes.toList = earlier ++ (key, value) :: later) :
    head.opening = "<" ++ head.tag ++ entriesText earlier
      ++ " " ++ key ++ "=\""
      ++ (escape value ++ ("\"" ++ entriesText later ++ ">")) := by
  have hentries : attributesText head.attributes
      = entriesText head.attributes.toList := rfl
  rw [opening, hentries, h, entriesText, List.map_append, List.map_cons,
    String.join_append, String.join_cons]
  simp only [String.append_assoc, entriesText]

end Markup

-- ================================================================ pages

namespace Page

open Markup (IsRead entriesText)

/-- The text of a page up to its title. -/
def lead : String :=
  doctype ++ "\n" ++ "<html xmlns=\"http://www.w3.org/1999/xhtml\">\n"
    ++ "<head>\n" ++ "\t<title>"

/-- Whether the title of a page, and the attributes of every element that
is written on it, are read back from its text. -/
structure IsDecodable (page : Page α) : Prop where
  title : ∃ rest, page.render = lead ++ rest
    ∧ IsRead rest page.title "</title>"
  attributes : ∀ above id e, page.tree.Route page.root above id →
    page.tree.get? id = some e →
    ∃ before after, page.render = before ++ after
      ∧ ∀ earlier key value later,
        e.attributes.toList = earlier ++ (key, value) :: later →
        ∃ rest, after = "<" ++ e.tag ++ entriesText earlier
            ++ " " ++ key ++ "=\"" ++ rest
          ∧ IsRead rest value ("\"" ++ entriesText later ++ ">")

/-- Whatever its title and its attributes are, they are read back. -/
theorem isDecodable (page : Page α) : page.IsDecodable := by
  constructor
  · obtain ⟨rest, hrender⟩ : ∃ rest, page.render
        = lead ++ (Markup.escape page.title ++ ("</title>" ++ rest)) := by
      refine ⟨"\n" ++ "\t<style type=\"text/css\">\n" ++ page.stylesheet
        ++ "\t</style>\n" ++ "</head>\n" ++ page.body ++ "</html>", ?_⟩
      have hline : "</title>\n" = "</title>" ++ "\n" := by decide
      unfold render lead
      rw [hline]
      simp only [String.append_assoc]
    exact ⟨_, hrender, Markup.isRead_escape _ ⟨'<', by decide, _, rfl⟩ _⟩
  · intro above id e hroute hget
    obtain ⟨before, after, hbody⟩ := exists_opening hroute hget
    obtain ⟨front, hrender⟩ : ∃ front, page.render
        = front ++ (e.head.opening ++ (after ++ "</html>")) := by
      refine ⟨lead ++ Markup.escape page.title ++ "</title>\n"
        ++ "\t<style type=\"text/css\">\n" ++ page.stylesheet
        ++ "\t</style>\n" ++ "</head>\n" ++ before, ?_⟩
      unfold render lead
      rw [hbody]
      simp only [String.append_assoc]
    refine ⟨front, _, hrender, ?_⟩
    intro earlier key value later hsplit
    refine ⟨Markup.escape value ++ ("\"" ++ entriesText later ++ ">"
      ++ (after ++ "</html>")), ?_, ?_⟩
    · rw [Markup.Head.opening_eq hsplit]
      simp only [String.append_assoc, Element.head]
    · refine Markup.isRead_escape _ ⟨'"', by decide, ?_⟩ _
      simp

end Page

/-- Escaping can be undone, leaves no character that ends a value or a tag,
and no ampersand that does not start an entity. So the title of any page
and all attributes on it are read back as they were set. -/
theorem markup_decodable (page : Page α) :
    (∀ text, Markup.IsReversible text) ∧ page.IsDecodable :=
  ⟨Markup.isReversible, page.isDecodable⟩

/-- A page with breaks, ampersands and an entity in its title and in an
attribute. -/
def markedSource : LayerDocument ManifestLayer :=
  .ofList
    [{ ManifestLayer.solid "<body>" ⟨0, 0, 960, 600⟩ ⟨0, 0, 0, 255⟩ with
        children :=
          [.solid "<p>[attr:alt=\"<b> &amp; >\"]" ⟨330, 200, 300, 200⟩
            ⟨4, 5, 6, 255⟩] },
      .folder "configuration" ⟨0, 0, 0, 0⟩
        [.solid "title=\"R&D: \"</title>\"\"" ⟨0, 0, 0, 0⟩
          ⟨0, 0, 0, 0⟩]]

/-- They are read back from its text. -/
theorem markedSource_decodable :
    ∃ conversion, Converter.convert {} markedSource = .ok conversion
      ∧ (∃ rest, conversion.page.render = Page.lead ++ rest
        ∧ Markup.IsRead rest "R&D: \"</title>\"" "</title>")
      ∧ ∃ before rest, conversion.page.render
          = before ++ ("<p" ++ " " ++ "alt" ++ "=\"" ++ rest)
        ∧ Markup.IsRead rest "<b> &amp; >" "\">" := by
  obtain ⟨conversion, hconvert⟩ : ∃ conversion,
    Converter.convert {} markedSource = .ok conversion := ⟨_, rfl⟩
  have hroot : (Converter.convert {} markedSource).toOption.map
      (fun conversion => (conversion.page.title,
        (conversion.page.tree.get? conversion.page.root).map
          fun e => (e.tag, e.children)))
      = some ("R&D: \"</title>\"", some ("body", [⟨1⟩])) := by
    decide +kernel
  have hchild : (Converter.convert {} markedSource).toOption.map
      (fun conversion => (conversion.page.tree.get? ⟨1⟩).map
        fun e => (e.tag, e.attributes.toList))
      = some (some ("p", [("alt", "<b> &amp; >")])) := by
    decide +kernel
  rw [hconvert] at hroot hchild
  obtain ⟨htitle, hbody⟩ := Prod.mk.inj (Option.some.inj hroot)
  have hparagraph := Option.some.inj hchild
  obtain ⟨e, hget, he⟩ := Option.map_eq_some_iff.1 hbody
  obtain ⟨e', hget', he'⟩ := Option.map_eq_some_iff.1 hparagraph
  obtain ⟨htag, hchildren⟩ := Prod.mk.inj he
  obtain ⟨htag', hattributes⟩ := Prod.mk.inj he'
  have hroute : conversion.page.tree.Route conversion.page.root
      [conversion.page.root] ⟨1⟩ := by
    refine .step (.start hget ?_) hget ?_ hget' ?_
    · rw [htag]; decide
    · rw [hchildren]; decide
    · rw [htag']; decide
  have hdecodable := (markup_decodable conversion.page).2
  refine ⟨conversion, hconvert, ?_, ?_⟩
  · rw [← htitle]
    exact hdecodable.title
  · obtain ⟨before, after, hrender, hread⟩ :=
      hdecodable.attributes _ _ e' hroute hget'
    obtain ⟨rest, rfl, hrest⟩ := hread [] _ _ [] hattributes
    rw [htag'] at hrender
    exact ⟨before, rest, hrender, hrest⟩

end LayerPage
