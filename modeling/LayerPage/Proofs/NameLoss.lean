/-
A name that cannot be read costs its own element only. If the name of one
layer of the body is replaced by one that cannot be read, the document is
converted to the same page but for one element (`Page.LosesName`): that
has no tag, no attributes and no selector any more, so its rule and its
markup are not written, and there is one more warning
(`convert_losesName`). It stays where it was, and no other element can
tell the difference.

# Two runs as one

The two runs are compared through a third one, that of the twins of the
layers: each of the trees that are built is a map of the tree of the
twins, the second one with an element effaced, and layout and heuristics
keep it so (`BuiltTwins.finished`). What is reported is the same at all
elements that have kept their names, and nothing at the one that has not,
because it has no class.
-/
import LayerPage.Proofs.Build.Twin
import LayerPage.Proofs.Markup.Pruned
import LayerPage.Proofs.Stylesheet

namespace LayerPage

variable {α β : Type}

open Heuristic (floatParent? complaints)
open Layer (Twin LiesAt)
open Reference (Contracts)

-- ============================================================= finishing

namespace BuiltTree

section

variable {built built' : BuiltTree α} {k : ElementId}
  (htree : built'.tree = built.tree.effaceAt k)
  (hroot : built'.root = built.root)

include htree hroot

/-- The root has a name, so it is reset as before. -/
theorem reset_effaced : built'.reset = built.reset.effaceAt k := by
  have hreset : ∀ rule : StyleRule,
      (Converter.resetRoot rule).withSelector ""
        = Converter.resetRoot (rule.withSelector "") := by
    intro rule
    unfold Converter.resetRoot
    rw [StyleRule.withSelector_infer, StyleRule.withSelector_infer]
  unfold reset
  rw [htree, hroot, ElementTree.effaceAt_modifyStyle hreset]

/-- The elements are visited in the same order. -/
theorem visits_effaced : built'.visits = built.visits := by
  unfold visits
  rw [reset_effaced htree hroot, ElementTree.descendants_effaceAt, hroot]

/-- Layout writes what it wrote before, to the effaced element as well. -/
theorem laidOut_effaced [Layer α] :
    built'.laidOut = built.laidOut.effaceAt k := by
  unfold laidOut
  rw [visits_effaced htree hroot, reset_effaced htree hroot,
    funext (Layout.visitWrites_effaceAt built.reset k),
    ElementTree.effaceAt_carryOut]

/-- Layout and the heuristics do to a tree with a lost name what they do to
the tree. -/
theorem finished_effaced [Layer α] :
    built'.finished = built.finished.effaceAt k := by
  unfold finished
  rw [laidOut_effaced htree hroot, visits_effaced htree hroot,
    funext (ElementTree.floatParent?_effaceAt built.laidOut k),
    ElementTree.effaceAt_carryOut, ElementTree.effaceAt_selectAll]

end

end BuiltTree

-- ================================================================= pages

/-- Whether two elements stand at the same place and declare the same. -/
structure Element.SamePlace (e : Element α) (e' : Element β) : Prop where
  parent? : e'.parent? = e.parent?
  children : e'.children = e.children
  siblings : e'.siblings = e.siblings
  detached : e'.detached = e.detached
  declarations : e'.style.declarations = e.style.declarations

/-- Whether two elements are written alike, their children apart. -/
structure Element.SameName (e : Element α) (e' : Element β) : Prop where
  tag : e'.tag = e.tag
  attributes : e'.attributes = e.attributes
  selector : e'.style.selector = e.style.selector

/-- Whether nothing is written of an element. -/
structure Element.IsNameless (e : Element α) : Prop where
  tag : e.tag = ""
  attributes : e.attributes = ∅
  selector : e.style.selector = ""

/-- Whether a text is the style sheet of a page without the rule of one
element. -/
def Page.LosesRule (page : Page α) (id : ElementId) (text : String) : Prop :=
  ∃ before after, page.stylesheetOrder = before ++ id :: after
    ∧ id ∉ before ∧ id ∉ after
    ∧ page.stylesheet = String.join (before.map page.ruleText)
      ++ page.ruleText id ++ String.join (after.map page.ruleText)
    ∧ text = String.join (before.map page.ruleText)
      ++ String.join (after.map page.ruleText)

/-- Whether a page is another one but for one element, which has lost its
name. -/
structure Page.LosesName (page : Page α) (id : ElementId) (copy : Page β) :
    Prop where
  size : copy.tree.size = page.tree.size
  root : copy.root = page.root
  order : copy.stylesheetOrder = page.stylesheetOrder
  config : copy.config = page.config
  element : ∀ i e, page.tree.get? i = some e →
    ∃ e', copy.tree.get? i = some e' ∧ e.SamePlace e'
      ∧ (i ≠ id → e.SameName e') ∧ (i = id → e'.IsNameless)
  seen : ∀ forest, page.tree.Sees [page.root] forest →
    copy.tree.Sees [copy.root] (forest.without id)
  stylesheet : page.LosesRule id copy.stylesheet
  body : page.LosesSubtree id copy.body

/-- A rule without a selector is not written. -/
theorem StyleRule.toCss_withSelector_empty (rule : StyleRule) :
    (rule.withSelector "").toCss = "" :=
  toCss_of_not_isWritten (Bool.false_and _)

/-- A page loses the rule of an element if what is listed has the rules it
had, but for that element, which has none. -/
theorem Page.losesRule {page : Page α} {copy : Page β} {id : ElementId}
    (hnodup : page.stylesheetOrder.Nodup) (hid : id ∈ page.stylesheetOrder)
    (horder : copy.stylesheetOrder = page.stylesheetOrder)
    (hsame : ∀ i, i ≠ id → copy.ruleText i = page.ruleText i)
    (hown : copy.ruleText id = "") : page.LosesRule id copy.stylesheet := by
  obtain ⟨before, after, hsplit⟩ := List.append_of_mem hid
  rw [hsplit, List.nodup_middle, List.nodup_cons, List.mem_append, not_or]
    at hnodup
  obtain ⟨⟨hbefore, hafter⟩, -⟩ := hnodup
  have hrules : ∀ ids : List ElementId, id ∉ ids →
      ids.map copy.ruleText = ids.map page.ruleText := by
    intro ids hids
    apply List.map_congr_left
    intro i hi
    exact hsame i fun heq => hids (heq ▸ hi)
  refine ⟨before, after, hsplit, hbefore, hafter, ?_, ?_⟩
  · rw [stylesheet_eq_join, hsplit, List.map_append, List.map_cons,
      String.join_append, String.join_cons, String.append_assoc]
  · rw [stylesheet_eq_join, horder, hsplit, List.map_append, List.map_cons,
      String.join_append, String.join_cons, hown, String.empty_append,
      hrules before hbefore, hrules after hafter]

namespace ElementTree

variable {γ : Type} {tree : ElementTree γ} {k : ElementId}

/-- Elements for other layers are written alike, and stand where they stood;
one that lost its name stands there too. -/
theorem exists_get?_effaced (f : γ → α) (g : γ → β) {i : ElementId}
    {e : Element α} (hget : (tree.map f).get? i = some e) :
    ∃ e', ((tree.map g).effaceAt k).get? i = some e' ∧ e.SamePlace e'
      ∧ (i ≠ k → e.SameName e') ∧ (i = k → e'.IsNameless) := by
  rw [get?_map, Option.map_eq_some_iff] at hget
  obtain ⟨x, hget, rfl⟩ := hget
  by_cases hi : i = k
  · subst hi
    refine ⟨(x.map g).effaced, ?_, ⟨rfl, rfl, rfl, rfl, rfl⟩,
      fun hne => absurd rfl hne, fun _ => ⟨rfl, rfl, rfl⟩⟩
    rw [get?_effaceAt_self, get?_map, hget]
    rfl
  · refine ⟨x.map g, ?_, ⟨rfl, rfl, rfl, rfl, rfl⟩,
      fun _ => ⟨rfl, rfl, rfl⟩, fun heq => absurd heq hi⟩
    rw [get?_effaceAt_of_ne hi, get?_map, hget]
    rfl

end ElementTree

namespace Page

section

variable {γ : Type} {f : γ → α} {g : γ → β} {tree : ElementTree γ}
  {id : ElementId} {page : Page α} {copy : Page β}
  (hpage : page.tree = tree.map f)
  (hcopy : copy.tree = (tree.map g).effaceAt id)

include hcopy

/-- The effaced element has no rule in the sheet. -/
theorem ruleText_effaced : copy.ruleText id = "" := by
  unfold ruleText
  rw [hcopy, ElementTree.get?_effaceAt_self]
  cases (tree.map g).get? id with
  | none => rfl
  | some e => exact e.style.toCss_withSelector_empty

include hpage

theorem ruleText_effaced_of_ne {i : ElementId} (hi : i ≠ id) :
    copy.ruleText i = page.ruleText i := by
  unfold ruleText
  rw [hcopy, hpage, ElementTree.get?_effaceAt_of_ne hi,
    ElementTree.map_get?_map g tree i fun _ => rfl,
    ElementTree.map_get?_map f tree i fun _ => rfl]
  rfl

/-- A page loses a name if the layers behind its elements are others and one
element is effaced. -/
theorem losesName (hroot : copy.root = page.root)
    (hconfig : copy.config = page.config)
    (hids : page.stylesheetOrder = page.tree.ids)
    (hids' : copy.stylesheetOrder = copy.tree.ids)
    (hwell : page.tree.WellFormed page.root)
    (hwell' : copy.tree.WellFormed copy.root)
    (hid : id.index < page.tree.size) : page.LosesName id copy := by
  have hsize : copy.tree.size = page.tree.size := by
    rw [hcopy, hpage, ElementTree.size_effaceAt, ElementTree.size_map,
      ElementTree.size_map]
  have horder : copy.stylesheetOrder = page.stylesheetOrder := by
    rw [hids', hids, ElementTree.ids, ElementTree.ids, hsize]
  have hseen : ∀ forest, page.tree.Sees [page.root] forest →
      copy.tree.Sees [copy.root] (forest.without id) := by
    intro forest hforest
    rw [hpage] at hforest
    rw [hcopy, hroot]
    exact (hforest.of_map.map g).effaceAt id
  refine
    { size := hsize, root := hroot, order := horder, config := hconfig
      element := ?_, seen := hseen, stylesheet := ?_, body := ?_ }
  · intro i e hget
    rw [hpage] at hget
    rw [hcopy]
    exact ElementTree.exists_get?_effaced f g hget
  · refine losesRule ?_ ?_ horder
      (fun _ => ruleText_effaced_of_ne hpage hcopy) (ruleText_effaced hcopy)
    · rw [hids]
      exact ElementId.nodup_of_ascending page.tree.ids_ascending
    · rw [hids]
      exact ElementTree.mem_ids_iff.2 hid
  · have hdecorated := (ElementTree.Restyled.refl page.tree).decorated
    obtain ⟨seen, hall, hnodup, -⟩ := hwell.exists_sees hdecorated
    have hsees := (hall seen).2 rfl
    have hremark : copy.remark = page.remark := by
      unfold remark
      rw [hconfig]
    rw [body_eq_renderAll (fun _ _ hget _ => hwell'.index_lt_of_child hget)
      (hseen seen hsees), hremark]
    exact losesSubtree (fun _ _ hget _ => hwell.index_lt_of_child hget)
      hsees hnodup id

end

end Page

variable [Layer α] [Layer β]

-- ================================================================= twins

/-- A tree built from a layer and a copy of the layer that has lost the
name of one layer, and the tree built from the copy. -/
structure BuiltTwins (twin : Twin α β) (below : Forest (Twin α β))
    (k : ElementId) (layer : Twin α β) (pair : BuiltTree (Twin α β))
    (built' : BuiltTree β) : Prop where
  build : BuiltTree.build Metadata.builtin twin = .ok pair
  build_copy : BuiltTree.build Metadata.builtin twin.copy = .ok built'
  isBelow : below.IsBelow twin
  builtFrom : Construction.BuiltFrom Metadata.builtin twin below pair
  numbers : Construction.NumbersLost twin below k
  lost : (twin :: below.labels)[k.index]? = some layer
  tree : built'.tree = (pair.map Twin.copy).tree.effaceAt k
  root : built'.root = (pair.map Twin.copy).root

namespace BuiltTwins

variable {twin layer : Twin α β} {below : Forest (Twin α β)}
  {k : ElementId} {pair : BuiltTree (Twin α β)} {built' : BuiltTree β}

/-- The layer of the effaced element is the one whose name is lost. -/
theorem isLost (h : BuiltTwins twin below k layer pair built') :
    layer.IsLost :=
  (h.numbers k.index layer h.lost).2 rfl

/-- The tree with its root reset is well formed. -/
theorem wellFormed (h : BuiltTwins twin below k layer pair built') :
    pair.reset.WellFormed pair.root :=
  h.builtFrom.reset_wellFormed

theorem visits (h : BuiltTwins twin below k layer pair built') :
    built'.visits = pair.visits := by
  rw [BuiltTree.visits_effaced h.tree h.root, BuiltTree.visits_map]

/-- The page of the copy is that of the original with one element
effaced. -/
theorem finished (h : BuiltTwins twin below k layer pair built') :
    built'.finished = (pair.finished.map Twin.copy).effaceAt k := by
  rw [BuiltTree.finished_effaced h.tree h.root,
    BuiltTree.finished_map Twin.displaces_copy h.wellFormed]

/-- The same is complained about, since the element that lost its name has
no class. -/
theorem complaints_eq (h : BuiltTwins twin below k layer pair built')
    {id : ElementId} (hid : pair.tree.isAttached id = true) :
    complaints built'.laidOut id = complaints pair.laidOut id := by
  have htree : built'.tree = (pair.tree.map Twin.copy).effaceAt k := h.tree
  rw [Heuristic.complaints_congr built'.restyled_laidOut,
    Heuristic.complaints_congr pair.restyled_laidOut, htree]
  by_cases hk : id = k
  · rw [hk]
    obtain ⟨e, hget, -, -, hclass⟩ :=
      h.builtFrom.exists_lost h.isBelow h.numbers h.lost
    have hget' : ((pair.tree.map Twin.copy).effaceAt k).get? k
        = some (e.map Twin.copy).effaced := by
      rw [ElementTree.get?_effaceAt_self, ElementTree.get?_map, hget]
      rfl
    rw [Heuristic.complaints_of_no_class hget hclass,
      Heuristic.complaints_of_no_class hget' rfl]
  · obtain ⟨e, hget, -⟩ := ElementTree.isAttached_iff.1 hid
    have hkept := h.builtFrom.isLost_layer h.isBelow h.numbers hid hk hget
    have hname : (e.map Twin.copy).layerName = e.layerName :=
      e.layer.losesNames.name_eq hkept
    apply Heuristic.complaints_eq_of_map
    rw [ElementTree.get?_effaceAt_of_ne hk, ElementTree.get?_map, hget,
      Option.map_some, Option.map_some, Option.map_some, hname]
    rfl

end BuiltTwins

-- =============================================================== warnings

/-- A warning about a name that cannot be read. -/
def unreadable (name : String) (fault : Fault) : Diagnostic where
  code := "strata::layer-name"
  message := fault.message
  layer? := some name
  help? := some "The layer is kept as an empty element"

/-- A name that cannot be read is warned about once. -/
theorem nameWarnings_of_error {layer : α} {fault : Fault}
    (h : LayerName.parse (Layer.name layer) = .error fault) :
    nameWarnings layer = [unreadable (Layer.name layer) fault] := by
  unfold nameWarnings
  rw [h]
  rfl

/-- There was nothing to warn about before it was lost, since it had no
entries. -/
theorem nameWarnings_of_lost {twin : Twin α β} (h : twin.IsLost) :
    nameWarnings twin = [] := by
  obtain ⟨read, hparse, hentries⟩ :=
    twin.losesNames.plain [] twin.original (.here _) h
  have hparse' : LayerName.parse (Layer.name twin) = .ok read := hparse
  unfold nameWarnings
  simp only [hparse', hentries]
  rfl

/-- A name that is kept is warned about as before. -/
theorem nameWarnings_copy {twin : Twin α β} (h : ¬twin.IsLost) :
    nameWarnings twin.copy = nameWarnings twin := by
  have hname : Layer.name twin.copy = Layer.name twin :=
    twin.losesNames.name_eq h
  unfold nameWarnings
  rw [hname]

/-- The names of layers that keep theirs are warned about as before. -/
theorem flatMap_nameWarnings_copy {layers : List (Twin α β)}
    (h : ∀ twin ∈ layers, ¬twin.IsLost) :
    (layers.map Twin.copy).flatMap nameWarnings
      = layers.flatMap nameWarnings := by
  rw [List.flatMap_map]
  apply List.flatMap_congr
  intro twin htwin
  exact nameWarnings_copy (h twin htwin)

/-- The copies have the warnings of the layers, and one more about the name
that is lost. -/
theorem BuiltTwins.exists_nameWarnings {twin layer : Twin α β}
    {below : Forest (Twin α β)} {k : ElementId}
    {pair : BuiltTree (Twin α β)} {built' : BuiltTree β}
    (h : BuiltTwins twin below k layer pair built') :
    ∃ before after,
      (twin :: below.labels).flatMap nameWarnings = before ++ after
        ∧ (twin.copy :: (below.map Twin.copy).labels).flatMap nameWarnings
          = before ++ nameWarnings layer.copy ++ after := by
  obtain ⟨before, after, hsplit, hbefore, hafter⟩ :=
    h.numbers.exists_split h.lost
  refine ⟨before.flatMap nameWarnings, after.flatMap nameWarnings, ?_, ?_⟩
  · rw [hsplit, List.flatMap_append, List.flatMap_cons,
      nameWarnings_of_lost h.isLost, List.nil_append]
  · rw [Forest.labels_map, ← List.map_cons, hsplit, List.map_append,
      List.map_cons, List.flatMap_append, List.flatMap_cons,
      flatMap_nameWarnings_copy hbefore, flatMap_nameWarnings_copy hafter,
      List.append_assoc]

-- ============================================================= documents

/-- Whether the layer at a position has a name that can be read and has no
entries, and is not one of a merge pair. -/
structure Layer.IsPlainAt (root : α) (place : List Nat) (layer : α) :
    Prop where
  lies : LiesAt root place layer
  readable : ∃ read, LayerName.parse (name layer) = .ok read
    ∧ read.entries = ∅
  parent : ∀ way folder i, LiesAt root way folder → place = way ++ [i] →
    ¬Contracts folder layer
  children : ∀ i child, i < childCount layer →
    child? layer i = some child → ¬Contracts layer child

/-- A layer whose name at one position can no longer be read has lost that
name. -/
theorem Layer.IsRenamed.losesNames {root : α} {copy : β} {place : List Nat}
    (h : IsRenamed (· = place) root copy) {layer : α}
    (hplain : IsPlainAt root place layer) {layer' : β}
    (hlies : LiesAt copy place layer') {fault : Fault}
    (hbroken : LayerName.parse (name layer') = .error fault) :
    LosesNames (· = place) root copy where
  toIsRenamed := h
  plain way found hfound hway := by
    rw [hway] at hfound
    rw [hplain.lies.unique hfound]
    exact hplain.readable
  alone way folder i child hfolder hi hchild hlost := by
    rcases hlost with hway | hway
    · rw [hway] at hfolder
      obtain rfl := hplain.lies.unique hfolder
      exact hplain.children i child hi hchild
    · have hat : LiesAt root (way ++ [i]) child :=
        hfolder.append (.inside hi hchild (.here child))
      rw [hway] at hat
      obtain rfl := hplain.lies.unique hat
      exact hplain.parent way folder i hfolder hway.symm
  broken way found hfound hway := by
    rw [hway] at hfound
    rw [hlies.unique hfound]
    exact ⟨fault, hbroken⟩

/-- Whether a conversion is another one but for the element of one layer,
which has lost its name. -/
structure Conversion.LosesName (conversion : Conversion α) (id : ElementId)
    (layer : α) (copy : Conversion β) (layer' : β) (fault : Fault) :
    Prop where
  own : ∃ e e', conversion.page.tree.get? id = some e
    ∧ copy.page.tree.get? id = some e' ∧ e.layer = layer
    ∧ e'.layer = layer' ∧ e.detached = false
  page : conversion.page.LosesName id copy.page
  diagnostics : ∃ before after, conversion.diagnostics = before ++ after
    ∧ copy.diagnostics
      = before ++ unreadable (Layer.name layer') fault :: after

namespace BuiltTwins

variable {twin layer : Twin α β} {below : Forest (Twin α β)}
  {k : ElementId} {pair : BuiltTree (Twin α β)} {built' : BuiltTree β}

/-- One more thing is reported of the copy. -/
theorem exists_diagnostics (h : BuiltTwins twin below k layer pair built')
    {fault : Fault}
    (hbroken : LayerName.parse (Layer.name layer.copy) = .error fault)
    (settings : Configuration × List Diagnostic) :
    ∃ before after,
      ((pair.map Twin.original).conversion settings).diagnostics
          = before ++ after
        ∧ (built'.conversion settings).diagnostics
          = before ++ unreadable (Layer.name layer.copy) fault :: after := by
  obtain ⟨before, after, horiginal, hcopy⟩ := h.exists_nameWarnings
  have hbelow := Twin.isBelow_copy h.isBelow
  rw [← Construction.build_diagnostics h.isBelow h.build] at horiginal
  rw [← Construction.build_diagnostics hbelow h.build_copy,
    nameWarnings_of_error hbroken] at hcopy
  refine ⟨settings.2 ++ before,
    after ++ pair.visits.flatMap (complaints pair.laidOut), ?_, ?_⟩
  · -- what heuristics complain about is the same, and comes last
    have hcomplaints : ∀ id, complaints (pair.map Twin.original).laidOut id
        = complaints pair.laidOut id := by
      intro id
      rw [BuiltTree.laidOut_map Twin.moves_original.toDisplaces h.wellFormed,
        Heuristic.complaints_map Twin.moves_original.toKeeps]
    show settings.2 ++ pair.diagnostics
      ++ (pair.map Twin.original).visits.flatMap _ = _
    rw [BuiltTree.visits_map, funext hcomplaints, horiginal]
    simp only [List.append_assoc]
  · have hcomplaints : built'.visits.flatMap (complaints built'.laidOut)
        = pair.visits.flatMap (complaints pair.laidOut) := by
      rw [h.visits]
      apply List.flatMap_congr
      intro id hid
      apply h.complaints_eq
      rw [BuiltTree.visits, h.wellFormed.descendants_root,
        ElementTree.mem_attached_iff, ← ElementTree.isAttached_iff,
        pair.restyled_reset.isAttached] at hid
      exact hid
    show settings.2 ++ built'.diagnostics ++ _ = _
    rw [hcomplaints, hcopy]
    simp only [List.append_assoc, List.cons_append, List.nil_append]

/-- What two documents convert to if their bodies are twins. -/
theorem losesName (h : BuiltTwins twin below k layer pair built')
    {source : LayerDocument α} {copy : LayerDocument β}
    {settings : Configuration × List Diagnostic}
    (hconvert : Converter.convert {} source
      = .ok ((pair.map Twin.original).conversion settings))
    (hconvert' : Converter.convert {} copy
      = .ok (built'.conversion settings))
    {fault : Fault}
    (hbroken : LayerName.parse (Layer.name layer.copy) = .error fault) :
    ((pair.map Twin.original).conversion settings).LosesName k
      layer.original (built'.conversion settings) layer.copy fault := by
  have hpage : (pair.map Twin.original).finished
      = pair.finished.map Twin.original :=
    BuiltTree.finished_map Twin.moves_original.toDisplaces h.wellFormed
  obtain ⟨body, _, _, hfrom⟩ := Conversion.exists_comesFrom hconvert
  obtain ⟨body', _, _, hfrom'⟩ := Conversion.exists_comesFrom hconvert'
  obtain ⟨e, hget, hattached, hlayer, -⟩ :=
    h.builtFrom.exists_lost h.isBelow h.numbers h.lost
  obtain ⟨x, hfinished, hstep⟩ := pair.restyled_finished.get? hget
  refine
    { own := ?_, page := ?_
      diagnostics := h.exists_diagnostics hbroken settings }
  · refine ⟨x.map Twin.original, (x.map Twin.copy).effaced, ?_, ?_, ?_, ?_,
      ?_⟩
    · show (pair.map Twin.original).finished.get? k = _
      rw [hpage, ElementTree.get?_map, hfinished]
      rfl
    · show built'.finished.get? k = _
      rw [h.finished, ElementTree.get?_effaceAt_self, ElementTree.get?_map,
        hfinished]
      rfl
    · rw [← hlayer, hstep.rule_only]
      rfl
    · rw [← hlayer, hstep.rule_only]
      rfl
    · rw [← hattached, hstep.rule_only]
      rfl
  · refine Page.losesName hpage h.finished h.root rfl hfrom.order_eq_ids
      hfrom'.order_eq_ids hfrom.wellFormed hfrom'.wellFormed ?_
    show k.index < (pair.map Twin.original).finished.size
    rw [hpage, ElementTree.size_map]
    exact ElementTree.get?_isSome_iff.1 ⟨x, hfinished⟩

end BuiltTwins

/-- Two bodies that are twins but for the name at one position are both
built, and the layers at that position have one number. -/
theorem exists_builtTwins (twin : Twin α β) {place : List Nat}
    (hlost : ∀ way, twin.lost way ↔ way = place) {layer : α}
    (hlies : LiesAt twin.original place layer) {layer' : β}
    (hlies' : LiesAt twin.copy place layer') {built : BuiltTree α}
    (h : BuiltTree.build Metadata.builtin twin.original = .ok built) :
    ∃ (below : Forest (Twin α β)) (k : ElementId) (both : Twin α β)
      (pair : BuiltTree (Twin α β)) (built' : BuiltTree β),
      BuiltTwins twin below k both pair built'
        ∧ both.original = layer ∧ both.copy = layer'
        ∧ built = pair.map Twin.original
        ∧ (below.map Twin.original).IsBelow twin.original
        ∧ (Forest.placedUnder twin.original
          (below.map Twin.original))[k.index]? = some (place, layer) := by
  obtain ⟨pair, hpair, hbuilt⟩ := BuiltTree.exists_build_twin h
  obtain ⟨below, hbelow, hfrom⟩ :=
    Construction.builtFrom Metadata.decorates_builtin hpair
  have horiginal := Twin.isBelow_original hbelow
  have hcopies := Twin.isBelow_copy hbelow
  obtain ⟨number, hnumber⟩ := horiginal.exists_number hlies
  have hat := hnumber
  rw [Forest.placedUnder_map, List.getElem?_map, Option.map_eq_some_iff]
    at hat
  obtain ⟨⟨way, both⟩, hat, heq⟩ := hat
  obtain ⟨rfl, rfl⟩ : way = place ∧ both.original = layer :=
    ⟨congrArg Prod.fst heq, congrArg Prod.snd heq⟩
  -- only one layer lies at the end of a way
  have hcopy : both.copy = layer' := by
    apply hlies'.unique
    rw [← hcopies.mem_placedUnder_iff, Forest.placedUnder_map]
    exact List.mem_map.2 ⟨_, List.mem_of_getElem? hat, rfl⟩
  have hnumbers : Construction.NumbersLost twin below ⟨number⟩ :=
    Construction.numbersLost_of_placedUnder hbelow hlost hat
  have hlabel : (twin :: below.labels)[number]? = some both := by
    rw [← Forest.map_snd_placedUnder, List.getElem?_map, hat]
    rfl
  obtain ⟨built', hbuild', htree, hroot⟩ :=
    BuiltTree.exists_build_copy hpair hbelow hnumbers
  exact ⟨below, ⟨number⟩, both, pair, built',
    ⟨hpair, hbuild', hbelow, hfrom, hnumbers, hlabel, htree, hroot⟩, rfl,
    hcopy, hbuilt, horiginal, hnumber⟩

/-- A name that cannot be read costs no more than the element it is the
name of: if the name of one layer of the body, which could be read and had
no entries, is replaced by one that cannot, and the layer is not one of a
merge pair, the document converts to the same page but for its element, and
there is one more warning, about the name. -/
theorem convert_losesName {source : LayerDocument α}
    {conversion : Conversion α}
    (hconvert : Converter.convert {} source = .ok conversion) {body : α}
    (hbody : source.layer? 0 = some body) {place : List Nat} {layer : α}
    (hplain : Layer.IsPlainAt body place layer) {copy : LayerDocument β}
    (hcopy : source.IsRenamed place copy) {body' : β}
    (hbody' : copy.layer? 0 = some body') {layer' : β}
    (hlies : LiesAt body' place layer') {fault : Fault}
    (hbroken : LayerName.parse (Layer.name layer') = .error fault) :
    ∃ (conversion' : Conversion β) (below : Forest α) (id : ElementId),
      Converter.convert {} copy = .ok conversion'
        ∧ below.IsBelow body
        ∧ (Forest.placedUnder body below)[id.index]? = some (place, layer)
        ∧ conversion.LosesName id layer conversion' layer' fault := by
  have hrenamed := hcopy.body
  rw [hbody, hbody'] at hrenamed
  obtain ⟨hrenamed⟩ := hrenamed
  let twin : Twin α β :=
    ⟨(· = place), body, body', hrenamed.losesNames hplain hlies hbroken⟩
  -- both conversions are read off the tree built from the twins
  have hsource := Converter.convert_eq_map_build hbody
  rw [hconvert] at hsource
  cases hbuild : BuiltTree.build Metadata.builtin body with
  | error fault =>
      rw [hbuild] at hsource
      cases hsource
  | ok built =>
      obtain ⟨below, k, both, pair, built', htwins, rfl, rfl, rfl, hbelow,
        hnumber⟩ :=
        exists_builtTwins twin (fun way => Iff.rfl) hplain.lies hlies hbuild
      rw [hbuild] at hsource
      obtain rfl := Except.ok.inj hsource
      have hconvert' : Converter.convert {} copy
          = .ok (built'.conversion (Converter.readConfiguration source)) := by
        rw [Converter.convert_eq_map_build hbody',
          Converter.readConfiguration_copy (hcopy.others 0)]
        show (BuiltTree.build Metadata.builtin twin.copy).map _ = _
        rw [htwins.build_copy]
        rfl
      exact ⟨_, _, k, hconvert', hbelow, hnumber,
        htwins.losesName hconvert hconvert' hbroken⟩

/-- A panel with a paragraph in it. -/
def panel : ManifestLayer :=
  .folder "panel" ⟨0, 10, 100, 50⟩
    [.solid "<p>" ⟨0, 20, 20, 20⟩ ⟨9, 9, 9, 255⟩]

/-- A page with a panel and a box below it. -/
def panelPage : ManifestLayer where
  name := "<body>"
  bounds := ⟨0, 0, 100, 200⟩
  kind := .normal
  pixels := .solid ⟨255, 255, 255, 255⟩
  children := [panel, .solid "box" ⟨0, 70, 100, 50⟩ ⟨0, 0, 0, 255⟩]

/-- The panel of the page has a plain name. -/
theorem panel_isPlainAt : Layer.IsPlainAt panelPage [0] panel where
  lies := .inside (by decide) rfl (.here panel)
  readable := ⟨_, rfl, rfl⟩
  parent way folder i hway hplace := by
    have hsplit : [] ++ [0] = way ++ [i] := hplace
    obtain rfl := List.append_inj_left' hsplit rfl
    cases hway
    decide
  children i child hi hchild := by
    have hzero : i = 0 := Nat.lt_one_iff.1 hi
    subst hzero
    cases hchild
    decide

/-- The panel of the page loses its name. -/
theorem panelPage_losesName :
    ∃ conversion fault, Converter.convert {} (.ofList [panelPage])
        = .ok conversion
      ∧ LayerName.parse "<panel" = .error fault
      ∧ Layer.IsPlainAt panelPage [0] panel
      ∧ (LayerDocument.ofList [panelPage]).IsRenamed [0]
        ((LayerDocument.ofList [panelPage]).rename [0] "<panel")
      ∧ ∃ (conversion' : Conversion (Layer.Renamed ManifestLayer))
          (below : Forest ManifestLayer) (id : ElementId),
        Converter.convert {}
            ((LayerDocument.ofList [panelPage]).rename [0] "<panel")
          = .ok conversion'
          ∧ below.IsBelow panelPage
          ∧ (Forest.placedUnder panelPage below)[id.index]?
            = some ([0], panel)
          ∧ conversion.LosesName id panel conversion'
            ⟨panel, some [], "<panel"⟩ fault := by
  obtain ⟨built, hbuilt⟩ : ∃ built,
    BuiltTree.build Metadata.builtin panelPage = .ok built := ⟨_, rfl⟩
  obtain ⟨conversion, hconvert⟩ : ∃ conversion,
      Converter.convert {} (.ofList [panelPage]) = .ok conversion :=
    Converter.exists_convert_eq_ok rfl hbuilt
  obtain ⟨fault, hbroken⟩ : ∃ fault,
    LayerName.parse "<panel" = .error fault := ⟨_, rfl⟩
  have hcopy := LayerDocument.isRenamed_rename [0] "<panel"
    (LayerDocument.ofList [panelPage])
  have hlies : LiesAt
      (⟨panelPage, some [0], "<panel"⟩ : Layer.Renamed ManifestLayer) [0]
      ⟨panel, some [], "<panel"⟩ :=
    .inside (by decide) rfl (.here _)
  exact ⟨conversion, fault, hconvert, hbroken, panel_isPlainAt, hcopy,
    convert_losesName hconvert rfl panel_isPlainAt hcopy rfl hlies hbroken⟩

end LayerPage
