/-
A reader of markup: one pass over the characters, with a stack of the
elements that are open. It reads what is written of a forest back
(`decode_textOf`), so that no two forests have the same text.

# Why attributes are never taken for structure

The reader knows at every character what it is in the middle of. A value
ends at the first quote, and an escaped value has none; a name ends at
the first `=`, so names may hold anything else, brackets and blanks
included; and tags are made of letters. Outside tags there is nothing but
tabs and line ends.

# Order

The last sibling is read first. A closed element is put in front of what
was read before it, which turns the order round again.
-/
import LayerPage.Proofs.Markup.Escape
import LayerPage.Proofs.Markup.Visible
import LayerPage.Proofs.SortedMap

namespace LayerPage.Markup

-- ============================================================== reading

/-- What a reader is in the middle of. -/
inductive Mode
  /-- Outside tags. -/
  | between
  /-- After `<`. -/
  | opened
  /-- In an opening tag, with the letters so far. -/
  | tag (letters : List Char)
  /-- In an opening tag, after its letters or an attribute. -/
  | attributes (tag : String) (entries : List (String × String))
  /-- In the name of an attribute, with the characters so far. -/
  | name (tag : String) (entries : List (String × String))
    (chars : List Char)
  /-- After the `=` of an attribute. -/
  | quote (tag : String) (entries : List (String × String)) (name : String)
  /-- In the value of an attribute, with the characters so far. -/
  | value (tag : String) (entries : List (String × String)) (name : String)
    (chars : List Char)
  /-- In a closing tag, with the characters so far. -/
  | closing (chars : List Char)

/-- A reader of markup. -/
structure Reader where
  mode : Mode := .between
  /-- The open elements, the innermost first, each with its peers that were
  read before it. -/
  outer : List (Head × Forest Head) := []
  /-- What was read inside the innermost open element. -/
  inner : Forest Head := .nil

namespace Reader

/-- A reader in another mode. -/
def within (r : Reader) (mode : Mode) : Reader :=
  { r with mode }

/-- Read the end of an opening tag. -/
def enter (r : Reader) (head : Head) : Reader :=
  { outer := (head, r.inner) :: r.outer }

/-- Read the end of a closing tag, which must be that of the innermost open
element. -/
def leave? (r : Reader) (tag : String) : Option Reader :=
  match r.outer with
  | (head, peers) :: outer =>
    if head.tag = tag then some { outer, inner := .cons head r.inner peers }
    else none
  | [] => none

/-- Read a character after the letters of an opening tag, or after an
attribute. -/
def inTag? (r : Reader) (tag : String) (entries : List (String × String))
    (c : Char) : Option Reader :=
  if c = ' ' then some (r.within (.name tag entries []))
  else if c = '>' then some (r.enter ⟨tag, SortedMap.ofList entries⟩)
  else none

/-- Read a character. -/
def next? (r : Reader) (c : Char) : Option Reader :=
  match r.mode with
  | .between =>
    if c = '<' then some (r.within .opened)
    else if c = '\t' ∨ c = '\n' then some r
    else none
  | .opened =>
    if c = '/' then some (r.within (.closing []))
    else if c.isAlpha then some (r.within (.tag [c]))
    else none
  | .tag letters =>
    if c.isAlpha then some (r.within (.tag (letters ++ [c])))
    else r.inTag? (String.ofList letters) [] c
  | .attributes tag entries => r.inTag? tag entries c
  | .name tag entries chars =>
    if c = '=' then some (r.within (.quote tag entries (String.ofList chars)))
    else some (r.within (.name tag entries (chars ++ [c])))
  | .quote tag entries name =>
    if c = '"' then some (r.within (.value tag entries name [])) else none
  | .value tag entries name chars =>
    if c = '"' then
      some (r.within (.attributes tag
        (entries ++ [(name, String.ofList (unescape chars))])))
    else some (r.within (.value tag entries name (chars ++ [c])))
  | .closing chars =>
    if c = '>' then r.leave? (String.ofList chars)
    else some (r.within (.closing (chars ++ [c])))

/-- Read a text. -/
def run (r : Reader) (cs : List Char) : Option Reader :=
  cs.foldlM next? r

end Reader

/-- Read the whole markup of a page. -/
def decode (text : String) : Option (Forest Head) :=
  match Reader.run {} text.toList with
  | some ⟨.between, [], forest⟩ => some forest
  | _ => none

-- ========================================================= what is read

namespace Reader

theorem run_cons {r r' : Reader} {c : Char} (h : r.next? c = some r')
    (cs : List Char) : r.run (c :: cs) = r'.run cs := by
  rw [run, List.foldlM_cons, h]
  rfl

theorem run_append {r r' : Reader} {cs : List Char}
    (h : r.run cs = some r') (ds : List Char) :
    r.run (cs ++ ds) = r'.run ds := by
  rw [run, List.foldlM_append]
  show (r.run cs).bind _ = _
  rw [h]
  rfl

/-- Characters that are collected one by one are collected together. -/
theorem run_collected {mode : List Char → Mode} {cs : List Char}
    (h : ∀ (r : Reader) (chars : List Char), ∀ c ∈ cs,
      (r.within (mode chars)).next? c = some (r.within (mode (chars ++ [c]))))
    (r : Reader) (chars : List Char) :
    (r.within (mode chars)).run cs = some (r.within (mode (chars ++ cs))) := by
  induction cs generalizing chars with
  | nil =>
      rw [List.append_nil]
      rfl
  | cons c cs ih =>
      rw [run_cons (h r chars c List.mem_cons_self),
        ih fun r chars d hd => h r chars d (List.mem_cons_of_mem _ hd),
        List.append_assoc, List.singleton_append]

/-- Tabs are read over outside tags. -/
theorem run_indent (r : Reader) (level : Nat) :
    (r.within .between).run (indent level).toList
      = some (r.within .between) := by
  rw [indent, String.toList_ofList]
  induction level with
  | zero => rfl
  | succ level ih => exact ih

end Reader

-- ================================================================= tags

/-- A tag as it stands in a text: what the element is called, and for each
attribute its name and what is between the quotes. -/
structure Tag where
  name : List Char
  attributes : List (List Char × List Char)

namespace Tag

/-- An attribute in an opening tag. -/
def attributeText (entry : List Char × List Char) : List Char :=
  ' ' :: (entry.1 ++ '=' :: '"' :: (entry.2 ++ ['"']))

/-- The opening tag. -/
def opening (tag : Tag) : List Char :=
  '<' :: (tag.name ++ (tag.attributes.flatMap attributeText ++ ['>']))

/-- The closing tag. -/
def closing (tag : Tag) : List Char :=
  '<' :: '/' :: (tag.name ++ ['>'])

/-- An attribute as it is read. -/
def readAttribute (entry : List Char × List Char) : String × String :=
  (String.ofList entry.1, String.ofList (unescape entry.2))

/-- What is read of a tag. -/
def head (tag : Tag) : Head :=
  ⟨String.ofList tag.name,
    SortedMap.ofList (tag.attributes.map readAttribute)⟩

/-- Whether a tag can be read: the element is called by letters, and no
name and no value holds the character that it ends at. -/
structure IsReadable (tag : Tag) : Prop where
  nonempty : tag.name ≠ []
  letters : ∀ c ∈ tag.name, c.isAlpha = true
  names : ∀ entry ∈ tag.attributes, '=' ∉ entry.1
  texts : ∀ entry ∈ tag.attributes, '"' ∉ entry.2

end Tag

namespace Reader

/-- An attribute is read. -/
theorem run_attribute {entry : List Char × List Char}
    (hname : '=' ∉ entry.1) (htext : '"' ∉ entry.2) (r : Reader)
    (tag : String) (entries : List (String × String)) :
    (r.within (.attributes tag entries)).run (Tag.attributeText entry)
      = some (r.within
        (.attributes tag (entries ++ [Tag.readAttribute entry]))) := by
  obtain ⟨name, text⟩ := entry
  have hchars : ∀ (r : Reader) (chars : List Char), ∀ c ∈ name,
      (r.within (.name tag entries chars)).next? c
        = some (r.within (.name tag entries (chars ++ [c]))) := by
    intro r chars c hc
    have hne : c ≠ '=' := by
      intro heq
      exact hname (heq ▸ hc)
    exact if_neg hne
  have hquoted : ∀ (r : Reader) (chars : List Char), ∀ c ∈ text,
      (r.within (.value tag entries (String.ofList name) chars)).next? c
        = some (r.within
          (.value tag entries (String.ofList name) (chars ++ [c]))) := by
    intro r chars c hc
    have hne : c ≠ '"' := by
      intro heq
      exact htext (heq ▸ hc)
    exact if_neg hne
  rw [Tag.attributeText, run_cons rfl]
  show (r.within (.name tag entries [])).run _ = _
  rw [run_append (run_collected hchars r []), run_cons rfl, run_cons rfl,
    List.nil_append]
  show (r.within (.value tag entries (String.ofList name) [])).run _ = _
  rw [run_append (run_collected hquoted r []), run_cons rfl,
    List.nil_append]
  rfl

/-- Several attributes are read. -/
theorem run_attributes {added : List (List Char × List Char)}
    (hnames : ∀ entry ∈ added, '=' ∉ entry.1)
    (htexts : ∀ entry ∈ added, '"' ∉ entry.2) (r : Reader)
    (tag : String) (entries : List (String × String)) :
    (r.within (.attributes tag entries)).run
        (added.flatMap Tag.attributeText)
      = some (r.within
        (.attributes tag (entries ++ added.map Tag.readAttribute))) := by
  induction added generalizing entries with
  | nil =>
      rw [List.map_nil, List.append_nil]
      rfl
  | cons entry added ih =>
      have hread := run_attribute (hnames entry List.mem_cons_self)
        (htexts entry List.mem_cons_self) r tag entries
      rw [List.flatMap_cons, run_append hread,
        ih (fun other h => hnames other (List.mem_cons_of_mem _ h))
          (fun other h => htexts other (List.mem_cons_of_mem _ h)),
        List.append_assoc, List.singleton_append, List.map_cons]

/-- The letters of an opening tag end before the first character that is
not a letter. -/
theorem run_tag_end (r : Reader) (letters : List Char) {cs : List Char}
    (h : cs.head?.any (·.isAlpha) = false) (hne : cs ≠ []) :
    (r.within (.tag letters)).run cs
      = (r.within (.attributes (String.ofList letters) [])).run cs := by
  cases cs with
  | nil => exact absurd rfl hne
  | cons c cs =>
      have hnext : (r.within (.tag letters)).next? c
          = (r.within (.attributes (String.ofList letters) [])).next? c := by
        have hletter : ¬c.isAlpha = true := by
          simpa using h
        exact if_neg hletter
      rw [run, run, List.foldlM_cons, List.foldlM_cons, hnext]

/-- The start of an opening tag, up to its last letter. -/
theorem run_letters {name : List Char} (hne : name ≠ [])
    (hname : ∀ c ∈ name, c.isAlpha = true) (r : Reader) :
    (r.within .between).run ('<' :: name)
      = some (r.within (.tag name)) := by
  have hletters : ∀ (r : Reader) (chars : List Char), ∀ c ∈ name,
      (r.within (.tag chars)).next? c
        = some (r.within (.tag (chars ++ [c]))) :=
    fun r chars c hc => if_pos (hname c hc)
  rw [run_cons rfl]
  cases name with
  | nil => exact absurd rfl hne
  | cons c cs =>
      have hletter : c.isAlpha = true := hname c List.mem_cons_self
      have hslash : ¬c = '/' := by
        intro heq
        rw [heq] at hletter
        exact absurd hletter (by decide)
      have hfirst : ((r.within .between).within .opened).next? c
          = some (r.within (.tag [c])) := by
        show (if c = '/' then _ else if c.isAlpha then _ else none) = _
        rw [if_neg hslash, if_pos hletter]
        rfl
      rw [run_cons hfirst]
      exact run_collected (fun r chars d hd =>
        hletters r chars d (List.mem_cons_of_mem _ hd)) r [c]

/-- An opening tag is read. -/
theorem run_opening {tag : Tag} (h : tag.IsReadable) (r : Reader) :
    (r.within .between).run tag.opening = some (r.enter tag.head) := by
  have hattributes := run_attributes h.names h.texts r
    (String.ofList tag.name) []
  -- an attribute starts with a blank, and without one the tag ends
  have hend : (tag.attributes.flatMap Tag.attributeText
      ++ ['>']).head?.any (·.isAlpha) = false := by
    cases tag.attributes with
    | nil => rfl
    | cons entry entries => rfl
  have hnonempty : tag.attributes.flatMap Tag.attributeText ++ ['>'] ≠ [] :=
    List.append_ne_nil_of_right_ne_nil _ (List.cons_ne_nil _ _)
  rw [Tag.opening, ← List.cons_append,
    run_append (run_letters h.nonempty h.letters r),
    run_tag_end r _ hend hnonempty, run_append hattributes, run_cons rfl,
    List.nil_append]
  rfl

/-- A closing tag is read. -/
theorem run_closing {tag : Tag} (h : tag.IsReadable) (r : Reader)
    (below : Forest Head) :
    ({ outer := (tag.head, r.inner) :: r.outer, inner := below }
        : Reader).run tag.closing
      = some { outer := r.outer
               inner := .cons tag.head below r.inner } := by
  have hchars : ∀ (r : Reader) (chars : List Char), ∀ c ∈ tag.name,
      (r.within (.closing chars)).next? c
        = some (r.within (.closing (chars ++ [c]))) := by
    intro r chars c hc
    have hne : c ≠ '>' := by
      intro heq
      have hletter := h.letters c hc
      rw [heq] at hletter
      exact absurd hletter (by decide)
    exact if_neg hne
  have hend : (within
      { outer := (tag.head, r.inner) :: r.outer, inner := below }
      (.closing tag.name)).next? '>'
      = some { outer := r.outer
               inner := .cons tag.head below r.inner } := by
    simp only [next?, within]
    exact if_pos rfl
  rw [Tag.closing, run_cons rfl, run_cons rfl]
  show (within { outer := (tag.head, r.inner) :: r.outer, inner := below }
    (.closing [])).run _ = _
  rw [run_append (run_collected hchars _ []), List.nil_append, run_cons hend]
  rfl

end Reader

-- ================================================================ heads

namespace Head

/-- Whether the tags of an element can be read back: the tag is made of
letters, and there is no `=` in the name of an attribute. -/
structure IsPlain (head : Head) : Prop where
  tag_nonempty : head.tag ≠ ""
  tag_chars : ∀ c ∈ head.tag.toList, c.isAlpha = true
  names : ∀ entry ∈ head.attributes.toList, '=' ∉ entry.1.toList

/-- The tag that is written of an element. -/
def written (head : Head) : Tag :=
  ⟨head.tag.toList, head.attributes.toList.map fun (name, value) =>
    (name.toList, escapeChars value.toList)⟩

/-- The opening tag of a head is written as the reader expects it. -/
theorem toList_opening (head : Head) :
    head.opening.toList = head.written.opening := by
  have hattributes : (attributesText head.attributes).toList
      = head.written.attributes.flatMap Tag.attributeText := by
    unfold attributesText written
    rw [String.toList_join, List.flatMap_map, List.flatMap_map]
    congr 1
    funext entry
    simp [Tag.attributeText, escape]
  simp [opening, Tag.opening, hattributes, written]

theorem toList_closing (head : Head) :
    head.closing.toList = head.written.closing := by
  simp [closing, Tag.closing, written]

/-- What is written of an element is read as that element. -/
theorem head_written (head : Head) : head.written.head = head := by
  have hread : head.written.attributes.map Tag.readAttribute
      = head.attributes.toList := by
    rw [written, List.map_map]
    refine (List.map_congr_left fun entry _ => ?_).trans (List.map_id _)
    simp only [Function.comp_apply, Tag.readAttribute, unescape_escapeChars,
      String.ofList_toList, id_eq]
  rw [Tag.head, hread, SortedMap.ofList_toList]
  simp only [written, String.ofList_toList]

/-- A plain head is read back. -/
theorem IsPlain.isReadable {head : Head} (h : head.IsPlain) :
    head.written.IsReadable where
  nonempty := mt String.toList_eq_nil_iff.1 h.tag_nonempty
  letters := h.tag_chars
  names := by
    intro entry hentry
    obtain ⟨⟨name, value⟩, hmem, rfl⟩ := List.mem_map.1 hentry
    exact h.names _ hmem
  texts := by
    intro entry hentry
    obtain ⟨⟨name, value⟩, -, rfl⟩ := List.mem_map.1 hentry
    exact not_mem_escapeChars (by decide) _

end Head

namespace Reader

-- =============================================================== forests

/-- What is written of a forest is read before what was read already. -/
theorem run_textOf {forest : Forest Head}
    (hplain : ∀ head ∈ forest.labels, head.IsPlain) (level : Nat)
    (r : Reader) :
    (r.within .between).run (textOf level forest).toList
      = some { outer := r.outer, inner := forest ++ r.inner } := by
  induction forest generalizing level r with
  | nil => rfl
  | cons head below rest ihBelow ihRest =>
      have hhead := hplain head List.mem_cons_self
      have hbelow := ihBelow fun label h => hplain label
        (List.mem_cons_of_mem _ (List.mem_append_left _ h))
      have hrest := ihRest (fun label h => hplain label
        (List.mem_cons_of_mem _ (List.mem_append_right _ h))) level r
      have htext : (textOf level (.cons head below rest)).toList
          = (textOf level rest).toList ++ ((indent level).toList
            ++ (head.opening.toList ++ '\n' ::
              ((textOf (level + 1) below).toList ++ ((indent level).toList
                ++ (head.closing.toList ++ ['\n']))))) := by
        simp [textOf]
      -- the reader outside the element, and inside it before and after
      let outside : Reader := { outer := r.outer, inner := rest ++ r.inner }
      let entered : Reader := outside.enter head
      let filled : Reader := { outer := entered.outer, inner := below }
      have hopened : outside.run (indent level).toList = some outside :=
        run_indent outside level
      have hentered : outside.run head.opening.toList = some entered := by
        have hread := run_opening hhead.isReadable outside
        rw [head.head_written, ← head.toList_opening] at hread
        exact hread
      have hfilled : entered.run (textOf (level + 1) below).toList
          = some filled := by
        have hread := hbelow (level + 1) entered
        rw [show entered.inner = .nil from rfl, Forest.append_nil] at hread
        exact hread
      have hclosed : filled.run (indent level).toList = some filled :=
        run_indent filled level
      have hleft : filled.run head.closing.toList
          = some { outer := r.outer
                   inner := .cons head below rest ++ r.inner } := by
        have hread := run_closing hhead.isReadable outside below
        rw [head.head_written, ← head.toList_closing] at hread
        exact hread
      rw [htext, run_append hrest, run_append hopened, run_append hentered,
        run_cons rfl, run_append hfilled, run_append hclosed,
        run_append hleft]
      rfl

end Reader

/-- The text of a forest can be read back. -/
theorem decode_textOf {forest : Forest Head}
    (hplain : ∀ head ∈ forest.labels, head.IsPlain) :
    decode (textOf 0 forest) = some forest := by
  have hrun : Reader.run {} (textOf 0 forest).toList
      = some { outer := [], inner := forest ++ .nil } :=
    Reader.run_textOf hplain 0 {}
  rw [decode, hrun, Forest.append_nil]

end LayerPage.Markup
