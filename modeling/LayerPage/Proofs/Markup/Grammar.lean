/-
The grammar of markup, and how far pages keep to it. A document is nothing
or one element; an element is an opening tag, elements, and the closing
tag of the same name, with blanks between tags. What attributes may be
called is a parameter of the grammar, since that is all that pages differ
in.

# What a page can break

Tags and values are sound on every page: tags are made of letters, every
element is closed where it was opened, an attribute is listed once, and
values are escaped. Names of attributes are written as layers give them
(`convert_isDocument`). So a page keeps to the grammar exactly if what is
seen of it has names for all attributes; one without a name is enough to
break it (`nameless_not_document`), although a property without a name is
refused.

# Why there is no way around

A text with a bad name might still have a derivation, one that takes the
name for something else. There is none, since the reader of markup follows
any derivation of a text that it reads: the names in the derivation are
those that are read (`IsContent.run`), and of a page these are the names
that are seen.
-/
import LayerPage.Proofs.Conversion
import LayerPage.Proofs.Markup.Lossless

namespace LayerPage

namespace Markup

-- ============================================================== grammar

/-- Characters with a meaning within tags. -/
def marks : List Char := ['"', '\'', '=', '<', '>', '/']

/-- Whether elements and attributes can be called by a text. -/
def IsName (cs : List Char) : Prop :=
  cs ≠ [] ∧ ∀ c ∈ cs, Text.isBlank c = false ∧ c ∉ marks

theorem IsName.not_mem_equals {cs : List Char} (h : IsName cs) : '=' ∉ cs :=
  fun hmem => (h.2 '=' hmem).2 (by decide)

/-- Whether a tag is one of the grammar. -/
structure Tag.Fits (attname : List Char → Prop) (tag : Tag) : Prop where
  name : IsName tag.name
  attname : ∀ entry ∈ tag.attributes, attname entry.1
  /-- No attribute is listed twice. -/
  once : (tag.attributes.map Prod.fst).Nodup
  text : ∀ entry ∈ tag.attributes, ∀ c ∈ ['"', '<', '>'], c ∉ entry.2

/-- What can stand outside tags, and inside an element: elements, and
blanks between them. -/
inductive IsContent (attname : List Char → Prop) : List Char → Prop
  | nil : IsContent attname []
  | blank {c : Char} {rest : List Char} :
      Text.isBlank c = true → IsContent attname rest →
      IsContent attname (c :: rest)
  | element {tag : Tag} {inside rest : List Char} :
      tag.Fits attname → IsContent attname inside →
      IsContent attname rest →
      IsContent attname (tag.opening ++ (inside ++ (tag.closing ++ rest)))

/-- Whether a text is nothing, or a single element with blanks after
it. -/
def IsDocument (attname : List Char → Prop) (cs : List Char) : Prop :=
  cs = [] ∨ ∃ (tag : Tag) (inside blanks : List Char), tag.Fits attname
    ∧ IsContent attname inside ∧ (∀ c ∈ blanks, Text.isBlank c = true)
    ∧ cs = tag.opening ++ (inside ++ (tag.closing ++ blanks))

/-- Whether the attributes of an element have names of the grammar. -/
def Head.Fits (attname : List Char → Prop) (head : Head) : Prop :=
  ∀ entry ∈ head.attributes.toList, attname entry.1.toList

section Grammar

variable {attname : List Char → Prop}

/-- Blanks are content, as text. -/
theorem isContent_of_blank {blanks : List Char}
    (h : ∀ c ∈ blanks, Text.isBlank c = true) :
    IsContent attname blanks := by
  induction blanks with
  | nil => exact .nil
  | cons c rest ih =>
      exact .blank (h c List.mem_cons_self)
        (ih fun d hd => h d (List.mem_cons_of_mem _ hd))

/-- Content behind content is content. -/
theorem IsContent.append {first later : List Char}
    (hfirst : IsContent attname first) (hlater : IsContent attname later) :
    IsContent attname (first ++ later) := by
  induction hfirst with
  | nil => exact hlater
  | blank hc _ ih => exact .blank hc ih
  | element htag hinside _ _ ih =>
      simp only [List.append_assoc]
      exact .element htag hinside ih

/-- A document is content. -/
theorem IsDocument.isContent {cs : List Char}
    (h : IsDocument attname cs) : IsContent attname cs := by
  rcases h with rfl | ⟨tag, inside, blanks, htag, hinside, hblanks, rfl⟩
  · exact .nil
  · exact .element htag hinside (isContent_of_blank hblanks)

-- ============================================================== writing

theorem not_isBlank_of_isAlpha {c : Char} (h : c.isAlpha = true) :
    Text.isBlank c = false := by
  have hrange : (65 ≤ c.toNat ∧ c.toNat ≤ 90)
      ∨ (97 ≤ c.toNat ∧ c.toNat ≤ 122) := by
    rcases Bool.or_eq_true_iff.1 h with hupper | hlower
    · exact .inl (of_decide_eq_true hupper)
    · obtain ⟨hlow, hhigh⟩ := Bool.and_eq_true_iff.1 hlower
      exact .inr ⟨of_decide_eq_true hlow, of_decide_eq_true hhigh⟩
  simp only [Text.isBlank, Text.blankRanges, List.any_cons, List.any_nil,
    Bool.or_eq_false_iff, Bool.and_eq_false_iff, decide_eq_false_iff_not,
    and_true]
  omega

/-- What is made of letters is a name. -/
theorem isName_of_isAlpha {cs : List Char} (hne : cs ≠ [])
    (h : ∀ c ∈ cs, c.isAlpha = true) : IsName cs := by
  have hmarks : marks.all (!·.isAlpha) = true := by decide
  refine ⟨hne, fun c hc => ⟨not_isBlank_of_isAlpha (h c hc), ?_⟩⟩
  intro hmark
  have hnone := List.all_eq_true.1 hmarks c hmark
  rw [h c hc] at hnone
  cases hnone

/-- The tag written of an element fits if the names of its attributes
do. -/
theorem Head.IsPlain.fits {head : Head} (h : head.IsPlain)
    (hnames : head.Fits attname) : head.written.Fits attname where
  name := isName_of_isAlpha h.isReadable.nonempty h.isReadable.letters
  attname := by
    intro entry hentry
    obtain ⟨written, hmem, rfl⟩ := List.mem_map.1 hentry
    exact hnames written hmem
  once := by
    rw [Head.written, List.map_map]
    refine List.pairwise_map.2 (head.attributes.ascending.imp ?_)
    intro a b hlt heq
    rw [String.toList_inj.1 heq] at hlt
    exact String.lt_irrefl _ hlt
  text := by
    intro entry hentry c hc
    obtain ⟨written, -, rfl⟩ := List.mem_map.1 hentry
    exact not_mem_escapeChars hc _

/-- The indentation of a line consists of blanks. -/
theorem toList_indent (level : Nat) :
    ∀ c ∈ (indent level).toList, Text.isBlank c = true := by
  intro c hc
  rw [indent, String.toList_ofList] at hc
  rw [List.eq_of_mem_replicate hc]
  decide

/-- The text of an element, and of what follows it. -/
theorem toList_textOf_cons (level : Nat) (head : Head)
    (below rest : Forest Head) :
    (textOf level (.cons head below rest)).toList
      = (textOf level rest).toList ++ ((indent level).toList
        ++ (head.written.opening
          ++ (('\n' :: ((textOf (level + 1) below).toList
              ++ (indent level).toList))
            ++ (head.written.closing ++ ['\n'])))) := by
  rw [← head.toList_opening, ← head.toList_closing]
  simp [textOf]

/-- What is written of a forest keeps to the grammar if its tags do. -/
theorem isContent_textOf {forest : Forest Head}
    (h : ∀ head ∈ forest.labels, head.written.Fits attname) (level : Nat) :
    IsContent attname (textOf level forest).toList := by
  induction forest generalizing level with
  | nil => exact .nil
  | cons head below rest ihBelow ihRest =>
      have hbelow := ihBelow (fun label hlabel => h label
        (List.mem_cons_of_mem _ (List.mem_append_left _ hlabel))) (level + 1)
      have hrest := ihRest (fun label hlabel => h label
        (List.mem_cons_of_mem _ (List.mem_append_right _ hlabel))) level
      have hindent : IsContent attname (indent level).toList :=
        isContent_of_blank (toList_indent level)
      have hline : Text.isBlank '\n' = true := by decide
      rw [toList_textOf_cons]
      exact hrest.append (hindent.append (.element
        (h head List.mem_cons_self)
        (.blank hline (hbelow.append hindent)) (.blank hline .nil)))

/-- A forest with no more than one root is written as a document. -/
theorem isDocument_textOf {forest : Forest Head}
    (hroot : forest.roots.length ≤ 1)
    (h : ∀ head ∈ forest.labels, head.written.Fits attname) :
    IsDocument attname (textOf 0 forest).toList := by
  cases forest with
  | nil => exact .inl rfl
  | cons head below rest =>
      cases rest with
      | cons _ _ _ =>
          simp only [Forest.roots, List.length_cons] at hroot
          omega
      | nil =>
          have hbelow := isContent_textOf (fun label hlabel => h label
            (List.mem_cons_of_mem _ (List.mem_append_left _ hlabel))) 1
          have hindent : IsContent attname (indent 0).toList := .nil
          have hline : Text.isBlank '\n' = true := by decide
          refine .inr ⟨head.written, _, ['\n'], h head List.mem_cons_self,
            .blank hline (hbelow.append hindent), ?_,
            toList_textOf_cons ..⟩
          intro c hc
          rw [List.mem_singleton.1 hc]
          exact hline

-- ============================================================== reading

namespace Reader

/-- A reader that comes through two texts comes through the first one. -/
theorem run_append_eq_some {r r' : Reader} {cs ds : List Char}
    (h : r.run (cs ++ ds) = some r') :
    ∃ between, r.run cs = some between ∧ between.run ds = some r' := by
  rw [run, List.foldlM_append] at h
  exact Option.bind_eq_some_iff.1 h

/-- A run over a character and a text is a step and then the run over the
text. -/
theorem run_cons_eq_some {r r' : Reader} {c : Char} {cs : List Char}
    (h : r.run (c :: cs) = some r') :
    ∃ after, r.next? c = some after ∧ after.run cs = some r' := by
  rw [run, List.foldlM_cons] at h
  exact Option.bind_eq_some_iff.1 h

/-- A reader that comes through a name after the first letters of a tag
finds nothing but letters. -/
theorem isAlpha_of_run_tag {cs : List Char}
    (hname : ∀ c ∈ cs, Text.isBlank c = false ∧ c ∉ marks)
    {r r' : Reader} {letters : List Char}
    (h : (r.within (.tag letters)).run cs = some r') :
    ∀ c ∈ cs, c.isAlpha = true := by
  induction cs generalizing letters with
  | nil => exact fun c hc => absurd hc List.not_mem_nil
  | cons d cs ih =>
      obtain ⟨after, hnext, hrun⟩ := run_cons_eq_some h
      obtain ⟨hblank, hmark⟩ := hname d List.mem_cons_self
      have hspace : d ≠ ' ' := by
        rintro rfl
        exact absurd hblank (by decide)
      have hend : d ≠ '>' := by
        rintro rfl
        exact hmark (by decide)
      by_cases hletter : d.isAlpha = true
      · have hread : (r.within (.tag letters)).next? d
            = some (r.within (.tag (letters ++ [d]))) := if_pos hletter
        rw [hread] at hnext
        cases hnext
        exact List.forall_mem_cons.2 ⟨hletter,
          ih (fun c hc => hname c (List.mem_cons_of_mem _ hc)) hrun⟩
      · have hstop : (r.within (.tag letters)).next? d = none := by
          show (if d.isAlpha then _ else _) = _
          rw [if_neg hletter, inTag?, if_neg hspace, if_neg hend]
        rw [hstop] at hnext
        cases hnext

/-- A reader that comes through an opening tag with a name finds letters. -/
theorem isAlpha_of_run_opening {name rest : List Char} (hname : IsName name)
    {r r' : Reader}
    (h : (r.within .between).run ('<' :: (name ++ rest)) = some r') :
    ∀ c ∈ name, c.isAlpha = true := by
  obtain ⟨hne, hchars⟩ := hname
  cases name with
  | nil => exact absurd rfl hne
  | cons d cs =>
      obtain ⟨_, hopened, hrun⟩ := run_cons_eq_some h
      cases hopened
      obtain ⟨after, hnext, hrun⟩ := run_cons_eq_some hrun
      have hslash : d ≠ '/' := by
        rintro rfl
        exact (hchars '/' List.mem_cons_self).2 (by decide)
      by_cases hletter : d.isAlpha = true
      · have hread : ((r.within .between).within .opened).next? d
            = some (r.within (.tag [d])) := by
          show (if d = '/' then _ else if d.isAlpha then _ else none) = _
          rw [if_neg hslash, if_pos hletter]
          rfl
        rw [hread] at hnext
        cases hnext
        obtain ⟨_, hrun, -⟩ := run_append_eq_some hrun
        exact List.forall_mem_cons.2 ⟨hletter, isAlpha_of_run_tag
          (fun c hc => hchars c (List.mem_cons_of_mem _ hc)) hrun⟩
      · have hstop : ((r.within .between).within .opened).next? d
            = none := by
          show (if d = '/' then _ else if d.isAlpha then _ else none) = _
          rw [if_neg hslash, if_neg hletter]
        rw [hstop] at hnext
        cases hnext

/-- A reader that comes through a blank outside tags is where it was. -/
theorem within_of_next?_blank {c : Char} (hc : Text.isBlank c = true)
    {r r' : Reader} (h : (r.within .between).next? c = some r') :
    r' = r.within .between := by
  have hopen : ¬c = '<' := by
    rintro rfl
    exact absurd hc (by decide)
  change (if c = '<' then _ else if c = '\t' ∨ c = '\n' then _ else none)
    = _ at h
  rw [if_neg hopen] at h
  split at h
  · cases h
    rfl
  · cases h

end Reader

/-- A tag of the grammar that is called by letters can be read, as long as
names of attributes have no `=`. -/
theorem Tag.Fits.isReadable {tag : Tag} (h : tag.Fits attname)
    (hplain : ∀ name, attname name → '=' ∉ name)
    (hletters : ∀ c ∈ tag.name, c.isAlpha = true) : tag.IsReadable where
  nonempty := h.name.1
  letters := hletters
  names := fun entry hentry => hplain _ (h.attname entry hentry)
  texts := fun entry hentry => h.text entry hentry '"' (by decide)

/-- The attributes that are read of a tag have its names. -/
theorem Tag.Fits.head {tag : Tag} (h : tag.Fits attname) :
    tag.head.Fits attname := by
  intro entry hentry
  rcases SortedMap.mem_insertAll hentry with hread | hnone
  · obtain ⟨written, hmem, rfl⟩ := List.mem_map.1 hread
    show attname (String.ofList written.1).toList
    rw [String.toList_ofList]
    exact h.attname written hmem
  · cases hnone

/-- A reader that comes through a text of the grammar reads it along its
derivation: no other elements are open then, and the names that it has read
are those of the derivation. -/
theorem IsContent.run (hplain : ∀ name, attname name → '=' ∉ name)
    {cs : List Char} (h : IsContent attname cs) {r r' : Reader}
    (hrun : (r.within .between).run cs = some r') :
    ∃ inner, r' = { outer := r.outer, inner }
      ∧ ∀ head ∈ inner.labels,
        head ∈ r.inner.labels ∨ head.Fits attname := by
  induction h generalizing r r' with
  | nil =>
      cases hrun
      exact ⟨r.inner, rfl, fun _ hhead => .inl hhead⟩
  | blank hc _ ih =>
      obtain ⟨after, hnext, hrun⟩ := Reader.run_cons_eq_some hrun
      rw [Reader.within_of_next?_blank hc hnext] at hrun
      exact ih hrun
  | @element tag inside rest htag _ _ ihInside ihRest =>
      obtain ⟨entered, hopening, hrun⟩ := Reader.run_append_eq_some hrun
      -- a tag that was come through begins with a letter
      have hreadable := htag.isReadable hplain
        (Reader.isAlpha_of_run_opening htag.name hopening)
      rw [Reader.run_opening hreadable] at hopening
      cases hopening
      obtain ⟨filled, hinside, hrun⟩ := Reader.run_append_eq_some hrun
      obtain ⟨below, rfl, hbelow⟩ := ihInside (r := r.enter tag.head) hinside
      obtain ⟨left, hclosing, hrun⟩ := Reader.run_append_eq_some hrun
      have hleft := Reader.run_closing hreadable r below
      rw [show left = _ from Option.some_inj.1 (hclosing.symm.trans hleft)]
        at hrun
      obtain ⟨inner, rfl, hinner⟩ := ihRest
        (r := { outer := r.outer, inner := .cons tag.head below r.inner })
        hrun
      refine ⟨inner, rfl, fun head hhead => ?_⟩
      rcases hinner head hhead with hhead | hfits
      · rcases List.mem_cons.1 hhead with rfl | hhead
        · exact .inr htag.head
        · rcases List.mem_append.1 hhead with hhead | hhead
          · exact (hbelow head hhead).imp_left fun hnone =>
              absurd hnone List.not_mem_nil
          · exact .inl hhead
      · exact .inr hfits

/-- The elements read of a text of the grammar have the names that the
grammar allows. -/
theorem IsContent.fits_of_decode
    (hplain : ∀ name, attname name → '=' ∉ name) {text : String}
    (h : IsContent attname text.toList) {forest : Forest Head}
    (hdecode : decode text = some forest) :
    ∀ head ∈ forest.labels, head.Fits attname := by
  unfold decode at hdecode
  split at hdecode
  · next hrun =>
    cases hdecode
    obtain ⟨inner, hread, hinner⟩ := h.run hplain (r := {}) hrun
    cases hread
    intro head hhead
    exact (hinner head hhead).resolve_left List.not_mem_nil
  · cases hdecode

end Grammar

end Markup

-- ================================================================ pages

/-- From one element no more than one tree is seen. -/
theorem ElementTree.Sees.length_roots_le_one {α : Type}
    {tree : ElementTree α} {id : ElementId}
    {seen : Forest (ElementId × Markup.Head)} (h : tree.Sees [id] seen) :
    (seen.map Prod.snd).roots.length ≤ 1 := by
  cases h with
  | hidden _ _ hrest =>
      cases hrest
      exact Nat.zero_le 1
  | shown _ _ _ hrest =>
      cases hrest
      exact Nat.le_refl 1

variable {α : Type} [Layer α]

/-- The markup of a document converted with the builtin handlers and
without remarks is nothing or one element, sound up to the names of
attributes. It keeps to the grammar exactly if all that is seen has names
of the grammar for its attributes. -/
theorem convert_isDocument {converter : Converter α}
    (hmetadata : converter.metadata = Metadata.builtin)
    (hdecorate : ∀ heuristic ∈ converter.heuristics, heuristic.Decorates)
    {source : LayerDocument α} {conversion : Conversion α}
    (h : converter.convert source = .ok conversion)
    (hplain : conversion.page.config.get? Configuration.commentTemplate
      = none) :
    Markup.IsDocument ('=' ∉ ·) conversion.page.body.toList
      ∧ (Markup.IsDocument Markup.IsName conversion.page.body.toList
        ↔ ∀ seen, conversion.page.tree.Sees [conversion.page.root] seen →
          ∀ label ∈ seen.labels, label.2.Fits Markup.IsName) := by
  obtain ⟨seen, hseen, -, hheads, hbody⟩ :=
    Converter.seen_of_convert hmetadata hdecorate h hplain
  have hsees := (hseen seen).2 rfl
  have hroot := hsees.length_roots_le_one
  refine ⟨?_, ?_, ?_⟩
  · rw [hbody]
    exact Markup.isDocument_textOf hroot fun head hhead =>
      (hheads head hhead).fits (hheads head hhead).names
  · -- the body is read back to what is seen, along the grammar
    intro hdocument other hother label hlabel
    rw [(hseen other).1 hother] at hlabel
    have hdecode := Markup.decode_textOf hheads
    rw [← hbody] at hdecode
    refine hdocument.isContent.fits_of_decode
      (fun _ => Markup.IsName.not_mem_equals) hdecode label.2 ?_
    rw [Forest.labels_map]
    exact List.mem_map_of_mem hlabel
  · intro hnames
    rw [hbody]
    refine Markup.isDocument_textOf hroot fun head hhead =>
      (hheads head hhead).fits ?_
    rw [Forest.labels_map] at hhead
    obtain ⟨label, hlabel, rfl⟩ := List.mem_map.1 hhead
    exact hnames seen hsees label hlabel

/-- The sample page. -/
theorem samplePage_isDocument :
    (∀ heuristic ∈ (Heuristic.builtin : List (Heuristic ManifestLayer)),
        heuristic.Decorates)
      ∧ ∃ conversion, Converter.convert {} (.ofList [samplePage])
        = .ok conversion
      ∧ conversion.page.config.get? Configuration.commentTemplate = none
      ∧ Markup.IsDocument ('=' ∉ ·) conversion.page.body.toList
      ∧ (Markup.IsDocument Markup.IsName conversion.page.body.toList
        ↔ ∀ seen, conversion.page.tree.Sees [conversion.page.root] seen →
          ∀ label ∈ seen.labels, label.2.Fits Markup.IsName) := by
  obtain ⟨conversion, h, hplain⟩ : ∃ conversion,
    Converter.convert {} (.ofList [samplePage]) = .ok conversion
      ∧ conversion.page.config.get? Configuration.commentTemplate = none :=
    ⟨_, rfl, rfl⟩
  exact ⟨Heuristic.decorates_builtin, conversion, h, hplain,
    convert_isDocument rfl Heuristic.decorates_builtin h hplain⟩

/-- A page with a box whose name sets an attribute without a name. -/
def namelessPage : ManifestLayer where
  name := "<body>"
  bounds := ⟨0, 0, 100, 200⟩
  kind := .normal
  pixels := .solid ⟨255, 255, 255, 255⟩
  children := [.solid "box[attr:=\"x\"]" ⟨0, 10, 100, 50⟩ ⟨0, 0, 0, 255⟩]

/-- The attribute is written without a name, nothing is reported, and the
markup is not that of a document. -/
theorem nameless_not_document :
    ∃ conversion, Converter.convert {} (.ofList [namelessPage])
        = .ok conversion
      ∧ conversion.page.config.get? Configuration.commentTemplate = none
      ∧ conversion.diagnostics = []
      ∧ conversion.page.body
        = "<body>\n\t<div =\"x\" id=\"box\">\n\t</div>\n</body>\n"
      ∧ ¬Markup.IsDocument Markup.IsName
        conversion.page.body.toList := by
  have hrun : (Converter.convert {} (.ofList [namelessPage])).toOption.map
      (fun conversion =>
        (conversion.page.config.get? Configuration.commentTemplate,
          conversion.diagnostics, conversion.page.body))
      = some (none, [],
        "<body>\n\t<div =\"x\" id=\"box\">\n\t</div>\n</body>\n") := by
    decide +kernel
  obtain ⟨conversion, hconvert, hread⟩ := Converter.exists_conversion hrun
  rw [Prod.mk.injEq, Prod.mk.injEq] at hread
  obtain ⟨hplain, hdiagnostics, hbody⟩ := hread
  refine ⟨conversion, hconvert, hplain, hdiagnostics, hbody, ?_⟩
  intro hdocument
  obtain ⟨forest, hdecode, hnameless⟩ : ∃ forest,
      Markup.decode "<body>\n\t<div =\"x\" id=\"box\">\n\t</div>\n</body>\n"
        = some forest
      ∧ (forest.labels.any fun head => head.attributes.contains "")
        = true := by
    rw [← Option.map_eq_some_iff]
    decide +kernel
  rw [← hbody] at hdecode
  obtain ⟨head, hhead, hcontains⟩ := List.any_eq_true.1 hnameless
  obtain ⟨value, hvalue⟩ := Option.isSome_iff_exists.1 hcontains
  have hfits := hdocument.isContent.fits_of_decode
    (fun _ => Markup.IsName.not_mem_equals) hdecode head hhead
    ("", value) (SortedMap.mem_toList_iff.2 hvalue)
  exact hfits.1 rfl

end LayerPage
