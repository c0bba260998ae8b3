/-
A finished page, step by step. `Conversion.ComesFrom` says how a
conversion with the builtin handlers and heuristics got its page: a tree
was built from the layers below a root, the rule of its root was reset,
layout was carried out at all elements, they were selected by their
classes, and overflow was hidden. What is said about finished pages is
read off these steps, each of them at the whole tree, and never off the
run that interleaves them.

The steps after building touch attached elements only, so the tree of a
finished page is as well-formed as it was built (`ComesFrom.wellFormed`).
-/
import LayerPage.Proofs.Passes

namespace LayerPage

variable {α : Type} [Layer α]

open Layout (carryOut visitWrites)
open Heuristic (selectAll hidings floatParent? complaints)

/-- What a visit of an attached element infers is for attached ones. -/
theorem Layout.isAttached_of_mem_visitWrites {tree : ElementTree α}
    {root u : ElementId} (hwell : tree.WellFormed root)
    (hu : tree.isAttached u = true) {w : Layout.Write}
    (h : w ∈ visitWrites tree u) : tree.isAttached w.target = true := by
  rcases Layout.target_of_mem_visitWrites h with
    hown | ⟨p, hp, hparent | hnext⟩
  · rw [hown]
    exact hu
  · rw [hparent]
    exact (hwell.isAttached_of_parentId?
      (ElementTree.parentId?_of_normalParent? hp)).2
  · have hpeer := (hwell.nextInFlow?_iff_prevInFlow?
      (ElementTree.parentId?_of_normalParent? hp)).1 hnext
    exact (hwell.isAttached_of_parentId? hpeer.1).1

namespace BuiltTree

/-- The tree that was built, with the rule of its root reset. -/
def reset (built : BuiltTree α) : ElementTree α :=
  built.tree.modifyStyle built.root Converter.resetRoot

/-- The elements to visit after building, in order. -/
def visits (built : BuiltTree α) : List ElementId :=
  built.reset.descendants built.root

/-- The tree after layout. -/
def laidOut (built : BuiltTree α) : ElementTree α :=
  carryOut built.reset (built.visits.flatMap (visitWrites built.reset))

omit [Layer α] in
/-- Resetting the root changes styles only. -/
theorem restyled_reset (built : BuiltTree α) :
    built.tree.Restyled built.reset :=
  ElementTree.restyled_modifyStyle Converter.pin?_resetRoot ..

/-- Resetting and layout only restyle. -/
theorem restyled_laidOut (built : BuiltTree α) :
    built.tree.Restyled built.laidOut :=
  built.restyled_reset.trans (Layout.restyled_carryOut ..)

end BuiltTree

namespace Conversion

/-- How a conversion got its page and its diagnostics. -/
structure ComesFrom (conversion : Conversion α) (source : LayerDocument α)
    (body : α) (below : Forest α) (built : BuiltTree α) : Prop where
  layer : source.layer? 0 = some body
  isBelow : below.IsBelow body
  build : BuiltTree.build Metadata.builtin body = .ok built
  builtFrom : Construction.BuiltFrom Metadata.builtin body below built
  root : conversion.page.root = built.root
  order : conversion.page.stylesheetOrder = built.stylesheet
  tree : conversion.page.tree
    = carryOut (selectAll built.laidOut built.visits)
      (hidings (built.visits.filterMap (floatParent? built.laidOut)))
  diagnostics : conversion.diagnostics
    = (Converter.readConfiguration source).2 ++ built.diagnostics
      ++ built.visits.flatMap (complaints built.laidOut)

/-- A document which is converted has a body, a forest below it, and a tree
built from the two. -/
theorem exists_comesFrom {source : LayerDocument α}
    {conversion : Conversion α}
    (h : Converter.convert {} source = .ok conversion) :
    ∃ body below built, conversion.ComesFrom source body below built := by
  obtain ⟨body, built, hbody, hbuild, htree, hroot, horder, hmet⟩ :=
    Converter.convert_eq_refineAll h
  obtain ⟨below, hbelow, hbuilt⟩ :=
    Construction.builtFrom Metadata.decorates_builtin hbuild
  have hreset : built.reset.WellFormed built.root := hbuilt.reset_wellFormed
  have hvisits : Layout.VisitOrder built.reset built.visits :=
    Layout.visitOrder_descendants hreset
  have hrefined := Converter.refineAll_eq_passes hreset hvisits
  rw [Layout.run_eq_carryOut hreset hvisits, Heuristic.runAll_builtin]
    at hrefined
  refine ⟨body, below, built, hbody, hbelow, hbuild, hbuilt, hroot, horder,
    ?_, ?_⟩
  · exact htree.trans (congrArg Prod.fst hrefined)
  · exact hmet.trans (congrArg (_ ++ ·) (congrArg Prod.snd hrefined))

namespace ComesFrom

variable {conversion : Conversion α} {source : LayerDocument α} {body : α}
  {below : Forest α} {built : BuiltTree α}

/-- Nothing after building does more than restyle. -/
theorem restyled (h : conversion.ComesFrom source body below built) :
    built.tree.Restyled conversion.page.tree := by
  rw [h.tree]
  exact built.restyled_laidOut.trans
    ((Heuristic.restyled_selectAll ..).trans (Layout.restyled_carryOut ..))

/-- The elements that are visited are those of the finished page, in the
same order. -/
theorem descendants (h : conversion.ComesFrom source body below built) :
    conversion.page.tree.descendants conversion.page.root = built.visits := by
  rw [h.root, h.restyled.descendants, BuiltTree.visits,
    built.restyled_reset.descendants]

/-- They are the attached ones, in the order of creation. -/
theorem visits_eq_attached
    (h : conversion.ComesFrom source body below built) :
    built.visits = conversion.page.tree.attached := by
  have hwell := h.builtFrom.wellFormed Metadata.decorates_builtin
  rw [← h.descendants, h.root, h.restyled.descendants,
    hwell.descendants_root, h.restyled.attached]

/-- The elements visited are the attached ones. -/
theorem mem_visits_iff (h : conversion.ComesFrom source body below built)
    {id : ElementId} :
    id ∈ built.visits ↔ built.tree.isAttached id = true := by
  rw [h.visits_eq_attached, ElementTree.mem_attached_iff,
    ← ElementTree.isAttached_iff, h.restyled.isAttached]

/-- Elements that are not attached stay as they were built. -/
theorem get?_of_not_attached
    (h : conversion.ComesFrom source body below built) {id : ElementId}
    (hid : built.tree.isAttached id = false) :
    conversion.page.tree.get? id = built.tree.get? id := by
  have hne : ∀ i, built.tree.isAttached i = true → id ≠ i := by
    rintro i hi rfl
    rw [hid] at hi
    cases hi
  have hreset : built.reset.WellFormed built.root :=
    h.builtFrom.reset_wellFormed
  -- only a parent hides its overflow, and parents are attached
  have hhidings : ∀ w ∈ hidings (built.visits.filterMap
      (floatParent? built.laidOut)), id ≠ w.target := by
    intro w hw
    obtain ⟨p, hp, rfl⟩ := List.mem_map.1 hw
    obtain ⟨c, -, hfloat⟩ := List.mem_filterMap.1 hp
    obtain ⟨hparent, -⟩ := Layout.floatParent?_carryOut_iff.1 hfloat
    apply hne
    rw [← built.restyled_reset.isAttached]
    exact (hreset.isAttached_of_parentId? hparent).2
  -- visits write to elements that are attached
  have hlayout : ∀ w ∈ built.visits.flatMap (visitWrites built.reset),
      id ≠ w.target := by
    intro w hw
    obtain ⟨u, hu, hvisit⟩ := List.mem_flatMap.1 hw
    rw [h.mem_visits_iff, ← built.restyled_reset.isAttached] at hu
    apply hne
    rw [← built.restyled_reset.isAttached]
    exact Layout.isAttached_of_mem_visitWrites hreset hu hvisit
  have hvisited : id ∉ built.visits := by
    rw [h.mem_visits_iff, hid]
    exact Bool.false_ne_true
  have hroot : built.tree.isAttached built.root = true := by
    obtain ⟨e, hget, -, hattached⟩ :=
      (h.builtFrom.wellFormed Metadata.decorates_builtin).root_get
    exact ElementTree.isAttached_iff.2 ⟨e, hget, hattached⟩
  rw [h.tree, Layout.get?_carryOut_of_ne hhidings, Heuristic.get?_selectAll,
    if_neg hvisited, BuiltTree.laidOut, Layout.get?_carryOut_of_ne hlayout]
  exact ElementTree.get?_modify_of_ne (hne built.root hroot)

/-- The style sheet has the rules of all elements, in their order. -/
theorem order_eq_ids (h : conversion.ComesFrom source body below built) :
    conversion.page.stylesheetOrder = conversion.page.tree.ids := by
  rw [h.order, h.builtFrom.stylesheet, ElementTree.ids, ElementTree.ids,
    h.restyled.size]

/-- The tree of a finished page is well-formed. -/
theorem wellFormed (h : conversion.ComesFrom source body below built) :
    conversion.page.tree.WellFormed conversion.page.root := by
  have hbuilt := h.builtFrom.wellFormed Metadata.decorates_builtin
  rw [h.root]
  apply hbuilt.restyled h.restyled
  intro id e hget hdetached
  have hid : built.tree.isAttached id = false := by
    rw [← h.restyled.isAttached, ElementTree.isAttached, hget,
      Option.any_some, hdetached]
    rfl
  rw [h.get?_of_not_attached hid] at hget
  exact (hbuilt.detached_empty id e hget hdetached).2.2.2

end ComesFrom

end Conversion

/-- A run of which something is known has succeeded. -/
theorem Converter.exists_conversion {β : Type} {converter : Converter α}
    {source : LayerDocument α} {f : Conversion α → β} {known : β}
    (h : (converter.convert source).toOption.map f = some known) :
    ∃ conversion, converter.convert source = .ok conversion
      ∧ f conversion = known := by
  cases hconvert : converter.convert source with
  | error fault => rw [hconvert] at h; cases h
  | ok conversion =>
      rw [hconvert] at h
      exact ⟨conversion, rfl, Option.some.inj h⟩

/-- A document converts as soon as the tree of its first layer is built. -/
theorem Converter.exists_convert_eq_ok {source : LayerDocument α} {body : α}
    {built : BuiltTree α} (hbody : source.layer? 0 = some body)
    (hbuild : BuiltTree.build Metadata.builtin body = .ok built) :
    ∃ conversion, Converter.convert {} source = .ok conversion := by
  unfold Converter.convert
  rw [hbody]
  simp only [hbuild]
  exact ⟨_, rfl⟩

end LayerPage
